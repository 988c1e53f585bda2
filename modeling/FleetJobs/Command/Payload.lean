import FleetJobs.Command.Line
import FleetJobs.Data.Variant
import FleetJobs.Json.Read
import FleetJobs.Json.Write
import FleetJobs.Text.Blank

/-! What agents are given and what they answer, as JSON.

Absent arguments are left out of the text, so that an empty list stays apart from
none (`FormatArgs.toDatum`). A search for a device may also answer that there is
none, in several ways (`DeviceLocation.read`). -/
namespace FleetJobs.Command

open FleetJobs.Data

/-- Arguments for formatting a target. -/
structure FormatArgs where
  targetTypes : String
  fsname : Option String
  /-- Interfaces of each management server, the primary one first. -/
  mgsnode : Option (List (List String))
  reformat : Bool
  /-- Interfaces of each server that can take over. -/
  failnode : Option (List (List String))
  device : String
  deriving DecidableEq, Repr

namespace FormatArgs

def toDatum (a : FormatArgs) : Datum :=
  let lists (xs : List (List String)) : Datum := .list (xs.map .strings)
  .record <|
    ("target_types", .text a.targetTypes) :: presentEntry "fsname" .text a.fsname ++
      presentEntry "mgsnode" lists a.mgsnode ++ [("reformat", .boolean a.reformat)] ++
      presentEntry "failnode" lists a.failnode ++ [("device", .text a.device)]

def reader : Reader FormatArgs :=
  let lists := Reader.list (Reader.list Reader.text)
  Reader.record "struct FormatArgs" <|
    (Fields.pure FormatArgs.mk).and (.required "target_types" Reader.text)
      |>.and (.optional "fsname" Reader.text)
      |>.and (.optional "mgsnode" lists)
      |>.and (.required "reformat" Reader.boolean)
      |>.and (.optional "failnode" lists)
      |>.and (.required "device" Reader.text)

def request (a : FormatArgs) : AgentRequest := .formatTarget (Json.write a.toDatum)

end FormatArgs

/-- The answer to formatting. -/
structure FormatResult where
  uuid : String
  deriving DecidableEq, Repr

def FormatResult.reader : Reader FormatResult := Reader.record "struct FormatResult" <|
  (Fields.pure FormatResult.mk).and (.required "uuid" Reader.text)

/-- The answer to registration. -/
structure RegisterResult where
  label : String
  deriving DecidableEq, Repr

def RegisterResult.reader : Reader RegisterResult := Reader.record "struct RegisterResult" <|
  (Fields.pure RegisterResult.mk).and (.required "label" Reader.text)

/-- Where a host has the volume that it was asked for. -/
structure DeviceLocation where
  path : String
  size : UInt64
  used : Bool
  deriving DecidableEq, Repr

namespace DeviceLocation

def reader : Reader DeviceLocation := Reader.record "struct DeviceLocation" <|
  (Fields.pure DeviceLocation.mk).and (.required "path" Reader.text)
    |>.and (.orElse "size" Reader.uint64 0)
    |>.and (.orElse "used" Reader.flag false)

/-- Whether an answer says that there is no such device. -/
def isNowhere : Datum → Bool
  | .null | .map [] => true
  | _ => false

/-- The location that an answer tells, if it tells one. An answer that is blank, null
or an empty map tells none. -/
def read (answer : String) : Except ReadError (Option DeviceLocation) := do
  if Text.allBlank answer then return none
  let d ← Json.readDatum answer
  if isNowhere d then return none
  some <$> reader (.ofMedium .tree) (.ofDatum d)

end DeviceLocation

end FleetJobs.Command
