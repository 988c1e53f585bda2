import FleetJobs.Proofs.PassCourse

/-! The last command that a report tells of.

A pass has one note for the last command, and every command that any of its steps sends is
written over it. To say which command that has to be, the outside keeps a ledger of all that it
is sent and of its replies (`Outside.ledgered`). The ledger is seen by nobody, so a pass does
what it does without it (`Pass.run_ledgered`); and since every command goes into the ledger as it
goes into the note, the note is on the last entry of a ledger that was begun with the pass
(`Noted`), wherever the pass ends: `last_command_is_faithful`. -/
namespace FleetJobs

open FleetJobs.Fleet (Host)
open FleetJobs.Gateway

variable {ε α σ : Type}

/-! ### What a record tells -/

/-- The record tells where the command was sent, how it read and what came back: what the command
gave, or why nothing is known of it. -/
structure Gateway.CommandRecord.TellsOf (r : CommandRecord) (c : Sent) : Prop where
  host : r.host = c.host.display
  command : r.command = c.line
  ran : ∀ output, c.reply = .ok output →
    r.exitCode = some output.exitCode ∧ r.stdout = output.stdout ∧ r.stderr = output.stderr
  broken : ∀ e, c.reply = .error e → r.exitCode = none ∧ r.stdout = "" ∧ r.stderr = e.message

theorem Sent.tellsOf_record (c : Sent) : c.record.TellsOf c := by
  obtain ⟨host, line, reply⟩ := c
  cases reply with
  | ok output =>
    refine ⟨rfl, rfl, fun output' h => ?_, nofun⟩
    cases h
    exact ⟨rfl, rfl, rfl⟩
  | error e =>
    refine ⟨rfl, rfl, nofun, fun e' h => ?_⟩
    cases h
    exact ⟨rfl, rfl, rfl⟩

/-! ### Ledgers -/

/-- The outside with a ledger of every command that it is sent and of its reply. -/
def Outside.ledgered (o : Outside σ) : Outside (σ × List Sent) where
  send s host line :=
    let (reply, next) := o.send s.1 host line
    (reply, next, s.2 ++ [⟨host, line, reply⟩])
  look s :=
    let (flags, next) := o.look s.1
    (flags, next, s.2)

/-- A program does with a ledger what it does without it. -/
theorem Program.run_ledgered (o : Outside σ) (p : Program ε α) (w : World (σ × List Sent)) :
    p.run o w.hosts = ((p.run o.ledgered w).1, (p.run o.ledgered w).2.hosts) := by
  induction p generalizing w with
  | done | fail => rfl
  | ask c next ih =>
    have hstore : w.hosts.store = w.store := rfl
    rcases hc : w.store.handle c with (r | _) | ⟨a, s⟩
    · rw [run_ask_refused o (hstore ▸ hc), run_ask_refused o.ledgered hc]
      exact ih _ w
    · rw [run_ask_exhausted o (hstore ▸ hc), run_ask_exhausted o.ledgered hc]
    · rw [run_ask_answered o (hstore ▸ hc), run_ask_answered o.ledgered hc]
      exact ih _ { w with store := s }
  | send host line next ih => exact ih _ (w.send o.ledgered host line).2
  | look next ih => exact ih _ (w.look o.ledgered).2

/-- The ledger holds what the log has taken up since, and the note is on its last entry. -/
structure Noted (before : List Sent) (w : World (σ × List Sent)) : Prop where
  sent : w.sent = before ++ w.outside.2
  note : w.lastCommand = w.outside.2.getLast?.map Sent.record

section

variable {before : List Sent} {w : World (σ × List Sent)}

theorem Noted.send (h : Noted before w) (o : Outside σ) (host : Host) (line : String) :
    Noted before (w.send o.ledgered host line).2 := by
  let c : Sent := ⟨host, line, (w.send o.ledgered host line).1⟩
  have hledger : (w.send o.ledgered host line).2.outside.2 = w.outside.2 ++ [c] := rfl
  constructor
  · show w.sent ++ [c] = before ++ (w.send o.ledgered host line).2.outside.2
    rw [hledger, h.sent, List.append_assoc]
  · show some c.record = (w.send o.ledgered host line).2.outside.2.getLast?.map Sent.record
    rw [hledger, List.getLast?_concat]
    rfl

/-- **However a program ends, the note is on the last command that was sent.** -/
theorem Noted.run (h : Noted before w) (o : Outside σ) (p : Program ε α) :
    Noted before (p.run o.ledgered w).2 := by
  induction p generalizing w with
  | done | fail => exact h
  | ask c next ih =>
    rcases hc : w.store.handle c with (r | _) | ⟨a, s⟩
    · rw [Program.run_ask_refused o.ledgered hc]
      exact ih _ h
    · rw [Program.run_ask_exhausted o.ledgered hc]
      exact h
    · rw [Program.run_ask_answered o.ledgered hc]
      exact ih _ (w := { w with store := s }) ⟨h.sent, h.note⟩
  | send host line next ih => exact ih _ (h.send o host line)
  | look next ih => exact ih _ (w := (w.look o.ledgered).2) ⟨h.sent, h.note⟩

end

/-! ### Passes -/

namespace Pass

variable (o : Outside σ) (agent : String) (job : Job) (start : Nat)

theorem lastCommand_of_run {w : World σ} {r : Report} (h : (run o agent job start w).1 = some r) :
    r.lastCommand = (run o agent job start w).2.lastCommand := by
  rw [run_eq] at h ⊢
  obtain ⟨v, _, rfl⟩ := Option.map_eq_some_iff.mp h
  rfl

theorem run_ledgered (w : World (σ × List Sent)) :
    run o agent job start w.hosts =
      ((run o.ledgered agent job start w).1, (run o.ledgered agent job start w).2.hosts) := by
  have hw : w.hosts.clearNote = w.clearNote.hosts := rfl
  simp only [run_eq, hw, Program.run_ledgered]
  rfl

/-- A ledger that is begun with a pass has what the pass sends, and nothing from before. -/
theorem noted_run (w : World σ) :
    Noted w.sent (run o.ledgered agent job start (w.beside [])).2 := by
  rw [run_eq]
  exact Noted.run ⟨(List.append_nil _).symm, rfl⟩ o _

end Pass

/-- **The last command of a report is the last that the pass sent**, whatever its steps, the store,
the hosts and the flags are, and whatever was sent and noted before. A ledger that the outside
begins with the pass changes nothing about the pass. There is no last command on report exactly if
the ledger stays empty, and otherwise the report tells of the ledger's last entry: its host, its
line, and what came back. -/
theorem last_command_is_faithful (o : Outside σ) (agent : String) (job : Job) (start : Nat)
    (w : World σ) :
    let ledgered := Pass.run o.ledgered agent job start (w.beside [])
    let ledger := ledgered.2.outside.2
    Pass.run o agent job start w = (ledgered.1, ledgered.2.hosts) ∧
    ledgered.2.sent = w.sent ++ ledger ∧
    ∀ r, (Pass.run o agent job start w).1 = some r →
      (r.lastCommand = none ↔ ledger = []) ∧
      ∀ c, ledger.getLast? = some c → ∃ record, r.lastCommand = some record ∧ record.TellsOf c := by
  intro ledgered ledger
  have hsame : Pass.run o agent job start w = (ledgered.1, ledgered.2.hosts) :=
    Pass.run_ledgered o agent job start (w.beside [])
  have noted : Noted w.sent ledgered.2 := Pass.noted_run o agent job start w
  refine ⟨hsame, noted.sent, fun r hr => ?_⟩
  have hlast : r.lastCommand = ledger.getLast?.map Sent.record := by
    have hnote := Pass.lastCommand_of_run o agent job start hr
    rw [hsame] at hnote
    exact hnote.trans noted.note
  constructor
  · rw [hlast, Option.map_eq_none_iff, List.getLast?_eq_none_iff]
  · intro c hc
    rw [hc] at hlast
    exact ⟨c.record, hlast, c.tellsOf_record⟩

/-- A step that succeeds, one that fails before it sends anything, and a pass before. -/
theorem last_of_step_before_failure :
    let host (id : UInt32) (address : String) : Host :=
      ⟨⟨id⟩, address, some 22, none, .up, none, []⟩
    let s := Store.ofInventory { hosts := [host 1 "oss1", host 2 "oss2"] }
    let o : Outside Unit :=
      { send := fun _ _ _ => (.ok ⟨0, "done", ""⟩, ())
        look := fun _ => (.unset, ()) }
    let job := Job.of 1 "Stop target" none [.startLnet ⟨1⟩, .unmount ⟨5⟩]
    let earlier : Sent := ⟨host 2 "oss2", "true", .error (.timeout "[oss2:22]" 9)⟩
    let w : World Unit := ⟨s, (), some earlier.record, [earlier]⟩
    ∃ r, (Pass.run o "agent" job 0 w).1 = some r ∧ r.state = .errored 1 ∧
      r.lastCommand = some ⟨"[oss1:22]", "lctl network up", some 0, "done", ""⟩ := by
  intro host s o job earlier w
  have hledger : ((Pass.run o.ledgered "agent" job 0 (w.beside [])).2.outside.2.getLast?.map
        fun c => (c.host.display, c.line, c.reply.toOption)) =
      some ("[oss1:22]", "lctl network up", some ⟨0, "done", ""⟩) := by
    decide +kernel
  have hstate : (Pass.run o "agent" job 0 w).1.map Report.state = some (.errored 1) := by
    decide +kernel
  obtain ⟨r, hr, hr'⟩ := Option.map_eq_some_iff.mp hstate
  obtain ⟨⟨h, line, reply⟩, hc, hlast⟩ := Option.map_eq_some_iff.mp hledger
  obtain ⟨_, _, hfaithful⟩ := last_command_is_faithful o "agent" job 0 w
  obtain ⟨⟨_, _, _, _, _⟩, hrecord, tells⟩ := (hfaithful r hr).2 _ hc
  simp only [Prod.mk.injEq] at hlast
  obtain ⟨hhost, rfl, hreply⟩ := hlast
  cases reply with
  | error e => cases hreply
  | ok output =>
    cases hreply
    obtain ⟨rfl, rfl, rfl⟩ := tells.ran _ rfl
    cases tells.host.trans hhost
    cases tells.command
    exact ⟨r, hr, hr', hrecord⟩

end FleetJobs
