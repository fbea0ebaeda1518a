import Quadruple.Proofs.Behaviour
import Quadruple.Proofs.RefusedRequests
import Quadruple.Proofs.Steps

/-!
Limits on the number of steps. Instructions do not see the limit, so that a limited run goes along
with the unlimited one until it has executed as many instructions as it may. If the unlimited run has
ended by then, or ends without executing another one, the limited run ends in the same way; otherwise
it is stopped there. So no run on a server takes more steps than the server's cap or the client's own
limit.
-/

namespace Quadruple.Machine

variable {machine after final : Machine} {instr : Instruction} {limit : Nat} {error : Error}
  {patience count : Nat} {outcome : Outcome}

def allowing (machine : Machine) (limit : Nat) : Machine :=
  { machine with limit }

/-! ### Steps -/

theorem Does.steps {position : Nat} (does : machine.Does instr after position) :
    after.steps = machine.steps ∧ after.limit = machine.limit := by
  cases does <;> exact ⟨rfl, rfl⟩

theorem Leaves.steps (leaves : machine.Leaves instr after) : after.steps = machine.steps := by
  cases leaves <;> rfl

/-- A running machine counts the step, unless it has come to the end of the program and halts. -/
theorem steps_of_step (running : ¬ machine.halted = true) (stepped : machine.step = (.ok (), after)) :
    after.limit = machine.limit ∧
      (machine.program[machine.position]? = none ∧ after.steps = machine.steps ∧ after.halted = true ∨
        after.steps = machine.steps + 1) := by
  rcases step_eq_ok stepped with ⟨_, halted⟩ | ⟨beyond, rfl⟩ | ⟨_, _, _, _, does, rfl⟩
  · exact absurd halted running
  · exact ⟨rfl, .inl ⟨beyond, rfl, rfl⟩⟩
  · exact ⟨does.steps.2, .inr (congrArg (· + 1) does.steps.1)⟩

theorem steps_of_failure (stepped : machine.step = (.error error, after)) : after.steps = machine.steps := by
  obtain ⟨_, _, leaves⟩ := step_eq_error stepped
  exact leaves.steps

theorem step_allowing (free : machine.limit = 0)
    (room : machine.steps < limit ∨ machine.program[machine.position]? = none) :
    (machine.allowing limit).step = (machine.step.1, machine.step.2.allowing limit) := by
  refine step_guise true fun instr found => .inr ?_
  have fewer : machine.steps < limit := room.resolve_right (by rw [found]; exact nofun)
  simp only [isSpent, guise, Bool.and_eq_true, decide_eq_true_eq]
  omega

/-- A limit that is reached before the end of the program stops the machine where it stands. -/
theorem step_allowing_full (running : ¬ machine.halted = true)
    (found : machine.program[machine.position]? = some instr) (positive : 0 < limit)
    (full : machine.steps = limit) :
    (machine.allowing limit).step =
      (.error (.stepLimit limit machine.position), machine.allowing limit) := by
  refine @step_full (machine.allowing limit) instr running found ?_
  rw [isSpent, Bool.and_eq_true, decide_eq_true_eq, decide_eq_true_eq]
  exact ⟨positive, Nat.le_of_eq full.symm⟩

/-! ### Runs -/

/-- How many instructions a run can have executed that is followed for so many steps. -/
def Outcome.Takes (patience taken : Nat) : Outcome → Prop
  | .halted => taken ≤ patience
  | .failed _ => taken < patience
  | .unfinished => taken = patience

theorem run_takes (ran : machine.run patience = (outcome, final)) :
    ∃ taken, final.steps = machine.steps + taken ∧ outcome.Takes patience taken := by
  induction patience generalizing machine with
  | zero =>
    cases ran
    refine ⟨0, rfl, ?_⟩
    split
    · exact Nat.le_refl 0
    · rfl
  | succ patience ih =>
    unfold run at ran
    split at ran
    · cases ran
      exact ⟨0, rfl, Nat.zero_le _⟩
    · rename_i running
      split at ran
      · rename_i stepped
        rcases (steps_of_step running stepped).2 with ⟨_, same, halted⟩ | counted
        · rw [run_eq_of_halted halted] at ran
          cases ran
          exact ⟨0, same, Nat.zero_le _⟩
        · obtain ⟨taken, total, takes⟩ := ih ran
          refine ⟨taken + 1, by omega, ?_⟩
          cases outcome <;> simp only [Outcome.Takes] at takes ⊢ <;> omega
      · rename_i stepped
        cases ran
        exact ⟨0, steps_of_failure stepped, Nat.succ_pos _⟩

/-- A limit makes no difference to a run that stays within it, whether it ends or is left unfinished. -/
theorem run_allowing (free : machine.limit = 0) (ran : machine.run patience = (outcome, final))
    (within : final.steps ≤ limit) (fails : ∀ error, outcome = .failed error → final.steps < limit) :
    (machine.allowing limit).run patience = (outcome, final.allowing limit) := by
  have halted : ∀ machine : Machine, (machine.allowing limit).halted = machine.halted := fun _ => rfl
  induction patience generalizing machine with
  | zero =>
    unfold run at ran ⊢
    cases ran
    rw [halted]
  | succ patience ih =>
    unfold run at ran ⊢
    rw [halted]
    split at ran
    · rename_i stands
      cases ran
      rw [if_pos stands]
    · rename_i running
      rw [if_neg running]
      split at ran
      · rename_i after stepped
        obtain ⟨kept, counts⟩ := steps_of_step running stepped
        obtain ⟨taken, total, _⟩ := run_takes ran
        have room : machine.steps < limit ∨ machine.program[machine.position]? = none := by
          rcases counts with ⟨beyond, _⟩ | counted
          · exact .inr beyond
          · exact .inl (by omega)
        rw [step_allowing free room, stepped]
        exact ih (kept.trans free) ran
      · rename_i error after stepped
        cases ran
        have room := fails error rfl
        rw [steps_of_failure stepped] at room
        rw [step_allowing free (.inl room), stepped]

def Settles (machine : Machine) (outcome : Outcome) (final : Machine) : Prop :=
  ∃ enough, ∀ patience, enough ≤ patience → machine.run patience = (outcome, final)

theorem settles_of_end (ran : machine.run count = (outcome, final)) (ended : outcome ≠ .unfinished) :
    machine.Settles outcome final := by
  refine ⟨count, fun patience enough => ?_⟩
  obtain ⟨more, rfl⟩ := Nat.exists_eq_add_of_le enough
  exact run_of_end ran ended more

/-- What a limit does to a run. -/
structure Truncates (limit : Nat) (free limited : Machine) : Prop where
  /-- A run that halts within the limit is the same. -/
  halts : ∀ final, free.Settles .halted final → final.steps ≤ limit →
    limited.Settles .halted (final.allowing limit)
  /-- A run that fails at an instruction within the limit is the same. -/
  fails : ∀ error final, free.Settles (.failed error) final → final.steps < limit →
    limited.Settles (.failed error) (final.allowing limit)
  /-- Any other run is stopped after as many instructions as the limit says. -/
  stops : (∀ final, free.Settles .halted final → limit < final.steps) →
    (∀ error final, free.Settles (.failed error) final → limit ≤ final.steps) →
    ∃ reached, free.run limit = (.unfinished, reached) ∧ reached.steps = limit ∧
      limited.Settles (.failed (.stepLimit limit reached.position)) (reached.allowing limit) ∧
      (Error.stepLimit limit reached.position).report.kind = .runtime

/-- A run that neither halts nor fails within the limit comes to an instruction that it may not
execute any more. -/
theorem exists_stopped (fresh : machine.steps = 0)
    (endless : ∀ final, machine.Settles .halted final → limit < final.steps)
    (faultless : ∀ error final, machine.Settles (.failed error) final → limit ≤ final.steps) :
    ∃ reached instr, machine.run limit = (.unfinished, reached) ∧ reached.steps = limit ∧
      ¬ reached.halted = true ∧ reached.program[reached.position]? = some instr := by
  rcases ran : machine.run limit with ⟨outcome, reached⟩
  obtain ⟨taken, total, takes⟩ := run_takes ran
  cases outcome with
  | halted =>
    have late := endless reached (settles_of_end ran nofun)
    simp only [Outcome.Takes] at takes
    omega
  | failed error =>
    have late := faultless error reached (settles_of_end ran nofun)
    simp only [Outcome.Takes] at takes
    omega
  | unfinished =>
    simp only [Outcome.Takes] at takes
    have running : ¬ reached.halted = true := by
      intro halted
      have again := run_add ran 0
      rw [run_eq_of_halted halted, Nat.add_zero, ran] at again
      cases again
    cases found : reached.program[reached.position]? with
    | some instr => exact ⟨reached, instr, rfl, by omega, running, found⟩
    | none =>
      -- one more step would halt without executing anything
      have halts : machine.run (limit + 1) = (.halted, { reached with halted := true }) := by
        rw [run_add ran, run, if_neg running]
        simp only [step, running, found, Bool.false_eq_true, if_false]
        exact run_eq_of_halted rfl 0
      have late := endless _ (settles_of_end halts nofun)
      simp only at late
      omega

section

variable (free : machine.limit = 0)
include free

theorem Settles.allowing (settles : machine.Settles outcome final) (within : final.steps ≤ limit)
    (fails : ∀ error, outcome = .failed error → final.steps < limit) :
    (machine.allowing limit).Settles outcome (final.allowing limit) := by
  obtain ⟨enough, settled⟩ := settles
  exact ⟨enough, fun patience long => run_allowing free (settled patience long) within fails⟩

theorem stops_allowing {reached : Machine} (positive : 0 < limit)
    (ran : machine.run limit = (.unfinished, reached)) (full : reached.steps = limit)
    (running : ¬ reached.halted = true)
    (found : reached.program[reached.position]? = some instr) :
    (machine.allowing limit).Settles (.failed (.stepLimit limit reached.position))
      (reached.allowing limit) := by
  have along : (machine.allowing limit).run limit = (.unfinished, reached.allowing limit) := by
    refine run_allowing free ran (Nat.le_of_eq full) fun _ failed => ?_
    cases failed
  have halted : (reached.allowing limit).halted = reached.halted := rfl
  refine @settles_of_end _ _ (limit + 1) _ ?_ nofun
  rw [run_add along, run, halted, if_neg running, step_allowing_full running found positive full]

theorem truncates_allowing (fresh : machine.steps = 0)
    (positive : 0 < limit) : Truncates limit machine (machine.allowing limit) where
  halts := by
    intro final settles within
    refine settles.allowing free within fun _ failed => ?_
    cases failed
  fails := fun _ _ settles within => settles.allowing free (Nat.le_of_lt within) fun _ _ => within
  stops := by
    intro endless faultless
    obtain ⟨reached, _, ran, full, running, found⟩ := exists_stopped fresh endless faultless
    exact ⟨reached, ran, full, stops_allowing free positive ran full running found, rfl⟩

end

theorem Settles.unique {outcome' : Outcome} {final' : Machine} (settles : machine.Settles outcome final)
    (settles' : machine.Settles outcome' final') : final = final' := by
  obtain ⟨enough, settled⟩ := settles
  obtain ⟨enough', settled'⟩ := settles'
  have first := settled (enough + enough') (Nat.le_add_right _ _)
  have second := settled' (enough + enough') (Nat.le_add_left _ _)
  exact congrArg Prod.snd (first.symm.trans second)

/-- Whichever way a limited run ends, it has executed no more instructions than it may. -/
theorem Truncates.steps_le {limited : Machine} (truncates : Truncates limit machine limited)
    (settles : limited.Settles outcome final) : final.steps ≤ limit := by
  by_cases halts : ∃ ended, machine.Settles .halted ended ∧ ended.steps ≤ limit
  · obtain ⟨ended, halted, within⟩ := halts
    rw [settles.unique (truncates.halts ended halted within)]
    exact within
  · by_cases fails : ∃ error ended, machine.Settles (.failed error) ended ∧ ended.steps < limit
    · obtain ⟨error, ended, failed, within⟩ := fails
      rw [settles.unique (truncates.fails error ended failed within)]
      exact Nat.le_of_lt within
    · obtain ⟨reached, _, full, stopped, _⟩ := truncates.stops
        (fun ended halted => Nat.lt_of_not_le fun within => halts ⟨ended, halted, within⟩)
        (fun error ended failed => Nat.le_of_not_lt fun within => fails ⟨error, ended, failed, within⟩)
      rw [settles.unique stopped]
      exact Nat.le_of_eq full

end Quadruple.Machine

namespace Quadruple.Server

variable {server after : Server} {patience : Nat} {occasion : Occasion} {request : RunRequest}
  {image : Image} {hash : Hash} {response : Response}

/-- The limit of a run is the smaller one of the cap and what is asked for, as far as they are set. -/
theorem stepLimit_within (server : Server) (requested : Nat) :
    (server.maxSteps ≠ 0 →
      0 < server.stepLimit requested ∧ server.stepLimit requested ≤ server.maxSteps) ∧
    (requested ≠ 0 → 0 < server.stepLimit requested ∧ server.stepLimit requested ≤ requested) := by
  unfold stepLimit
  split
  · omega
  · split
    · rename_i capped
      simp only [Bool.or_eq_true, decide_eq_true_eq] at capped
      omega
    · rename_i asked
      simp only [Bool.or_eq_true, decide_eq_true_eq] at asked
      omega

theorem settles_execute
    (answered : server.execute patience occasion request image hash = (.finished response, after)) :
    after.records = server.records ++ [response.record] ∧ ∃ outcome final,
      (server.machineFor request image).Settles outcome final ∧ response.record.steps = final.steps := by
  unfold execute at answered
  split at answered
  · rename_i final ran
    cases answered
    exact ⟨rfl, _, final, Machine.settles_of_end ran nofun, rfl⟩
  · rename_i error final ran
    cases answered
    exact ⟨rfl, _, final, Machine.settles_of_end ran nofun, rfl⟩
  · cases answered

theorem steps_execute_le (positive : 0 < server.stepLimit request.maxSteps)
    (answered : server.execute patience occasion request image hash = (.finished response, after)) :
    response.record.steps ≤ server.stepLimit request.maxSteps := by
  obtain ⟨_, outcome, final, settles, reported⟩ := settles_execute answered
  have truncates : Machine.Truncates (server.stepLimit request.maxSteps)
      (.ofProgram image.program { input := request.input }) (server.machineFor request image) :=
    Machine.truncates_allowing rfl rfl positive
  rw [reported]
  exact truncates.steps_le settles

theorem Finds.maxSteps {now : Int} (finds : Finds server now request after) :
    after.maxSteps = server.maxSteps := by
  cases finds with
  | same => rfl
  | keeps _ _ kept =>
    unfold keepImage at kept
    split at kept
    · cases kept
    · split at kept
      · cases kept
        rfl
      · cases kept

/-- A step limit only truncates a run: one that halts within it or fails at an instruction within it
is the same, and any other one is stopped after exactly as many instructions as the limit says, with
what the unlimited run has printed and stored by then. So no run that a server reports has taken more
steps than its cap allows or than the client asked for, where these are set. -/
theorem limit_truncates :
    (∀ (program : Code) (options : Machine.Options) (limit : Nat), 0 < limit →
      Machine.Truncates limit (.ofProgram program { options with limit := 0 })
        (.ofProgram program { options with limit })) ∧
    ∀ (server after : Server) (patience : Nat) (occasion : Occasion) (request : RunRequest)
      (response : Response), server.run patience occasion request = (.finished response, after) →
      after.records = server.records ++ [response.record] ∧
      (server.maxSteps ≠ 0 → response.record.steps ≤ server.maxSteps) ∧
      (request.maxSteps ≠ 0 → response.record.steps ≤ request.maxSteps) := by
  constructor
  · intro program options limit positive
    exact Machine.truncates_allowing rfl rfl positive
  · intro server after patience occasion request response answered
    unfold run at answered
    split at answered
    · cases answered
    · rename_i image hash found resolved
      split at answered
      · cases answered
      · have finds := finds_resolve resolved
        have records := (settles_execute answered).1
        obtain ⟨capped, asked⟩ := found.stepLimit_within request.maxSteps
        rw [finds.maxSteps] at capped
        refine ⟨records.trans (by rw [finds.records]), fun set => ?_, fun set => ?_⟩
        · exact Nat.le_trans (steps_execute_le (capped set).1 answered) (capped set).2
        · exact Nat.le_trans (steps_execute_le (asked set).1 answered) (asked set).2

/-- A server on which runs take two steps at most. -/
def brisk : Server :=
  { maxSteps := 2 }

def Answer.steps? : Answer → Option Nat
  | .finished response => some response.record.steps
  | _ => none

/-- The program that writes a number is stopped before it does so, on a machine and on a server. -/
theorem scribe_truncated :
    Machine.Truncates 2 (.ofProgram scribe.program {}) (.ofProgram scribe.program { limit := 2 }) ∧
    ∃ response after,
      brisk.run 3 ⟨"first", 0⟩ (scribeRequest false) = (.finished response, after) ∧
        response.record.steps = 2 ∧ after.records = [response.record] := by
  refine ⟨limit_truncates.1 scribe.program {} 2 (by decide), ?_⟩
  have reported : (brisk.run 3 ⟨"first", 0⟩ (scribeRequest false)).1.steps? = some 2 := by
    decide +kernel
  rcases answered : brisk.run 3 ⟨"first", 0⟩ (scribeRequest false) with ⟨answer, after⟩
  rw [answered] at reported
  cases answer with
  | finished response =>
    have recorded := (limit_truncates.2 _ _ _ _ _ _ answered).1
    exact ⟨response, after, rfl, Option.some.inj reported, recorded⟩
  | refused => cases reported
  | unfinished => cases reported

end Quadruple.Server
