import Quadruple.Proofs.Walk

/-!
What is seen of a machine's run: what it prints, whether it goes on for ever, and, if it ends, how
and with which memory. A machine without a limit runs like the walk through its program's chart.
-/

namespace Quadruple.Machine

variable {count : Nat} {machine final after : Machine} {code : Code}

def Diverges (machine : Machine) : Prop :=
  ∀ count, ∃ later, machine.run count = (.unfinished, later)

def HaltsWith (machine final : Machine) : Prop :=
  ∃ count, machine.run count = (.halted, final)

def FailsWith (machine : Machine) (kind : ErrorKind) (final : Machine) : Prop :=
  ∃ count error, machine.run count = (.failed error, final) ∧ error.report.kind = kind

def Prints (machine : Machine) (text : String) : Prop :=
  ∃ count, (machine.run count).2.console.output = text

/-- Two runs print the same, and both go on for ever, both halt, or both fail with errors of one
kind; what is viewed of the memory at the end is then the same. -/
structure SameBehaviour {View : Type} (view : Memory → View) (first second : Machine) : Prop where
  prints : ∀ text, first.Prints text ↔ second.Prints text
  diverges : first.Diverges ↔ second.Diverges
  halts : ∀ text seen,
    (∃ final, first.HaltsWith final ∧ final.console.output = text ∧ view final.memory = seen) ↔
    (∃ final, second.HaltsWith final ∧ final.console.output = text ∧ view final.memory = seen)
  fails : ∀ kind text seen,
    (∃ final, first.FailsWith kind final ∧ final.console.output = text ∧ view final.memory = seen) ↔
    (∃ final, second.FailsWith kind final ∧ final.console.output = text ∧ view final.memory = seen)

theorem run_eq_of_halted (halted : machine.halted = true) (patience : Nat) :
    machine.run patience = (.halted, machine) := by
  cases patience <;> rw [run, if_pos halted]

/-- A run that has ended is the same however long it is followed. -/
theorem run_of_end {outcome : Outcome} (ran : machine.run count = (outcome, final))
    (ended : outcome ≠ .unfinished) (more : Nat) : machine.run (count + more) = (outcome, final) := by
  induction count generalizing machine with
  | zero =>
    unfold run at ran
    by_cases halted : machine.halted = true
    · rw [if_pos halted] at ran
      rw [← ran, run_eq_of_halted halted]
    · rw [if_neg halted] at ran
      cases ran
      exact absurd rfl ended
  | succ count ih =>
    rw [Nat.add_right_comm, run]
    unfold run at ran
    split at ran
    · rename_i halted
      rw [if_pos halted]
      exact ran
    · rename_i running
      rw [if_neg running]
      split at ran
      · exact ih ran
      · exact ran

theorem HaltsWith.unique {final' : Machine} (halts : machine.HaltsWith final)
    (halts' : machine.HaltsWith final') : final = final' := by
  obtain ⟨count, ran⟩ := halts
  obtain ⟨count', ran'⟩ := halts'
  have first := run_of_end ran nofun count'
  rw [Nat.add_comm] at first
  exact congrArg Prod.snd (first.symm.trans (run_of_end ran' nofun count))

def system : System Machine (Ending × Workspace) where
  step machine :=
    if machine.halted then .inr (.halted, machine.workspace)
    else
      match machine.step with
      | (.ok (), after) => .inl after
      | (.error error, after) => .inr (.failed error.report.kind, after.workspace)
  output machine := machine.console.output

def Outcome.Is : Outcome → Ending → Prop
  | halted, .halted => True
  | failed error, .failed kind => error.report.kind = kind
  | _, _ => False

theorem Outcome.Is.unique {outcome : Outcome} {first second : Ending} (one : outcome.Is first)
    (other : outcome.Is second) : first = second := by
  cases outcome with
  | unfinished => cases first <;> cases one
  | halted =>
    cases first with
    | failed => cases one
    | halted =>
      cases second with
      | failed => cases other
      | halted => rfl
  | failed error =>
    cases first with
    | halted => cases one
    | failed kind =>
      cases second with
      | halted => cases other
      | failed kind' => rw [show kind = kind' from Eq.trans (Eq.symm one) other]

theorem system_step_of_halted (halted : machine.halted = true) :
    system.step machine = .inr (.halted, machine.workspace) := by
  simp only [system, halted, if_true]

theorem system_step_of_ok (running : ¬ machine.halted = true) (taken : machine.step = (.ok (), after)) :
    system.step machine = .inl after := by
  simp only [system, if_neg running, taken]

theorem system_step_of_error {error : Error} (running : ¬ machine.halted = true)
    (taken : machine.step = (.error error, after)) :
    system.step machine = .inr (.failed error.report.kind, after.workspace) := by
  simp only [system, if_neg running, taken]

/-- A run comes to where the system comes, and ends as it does. -/
def RunsTo (ran : Outcome × Machine) : Machine ⊕ (Ending × Workspace) → Prop
  | .inl later => ran = (if later.halted then .halted else .unfinished, later)
  | .inr (ending, workspace) => ran.1.Is ending ∧ ran.2.workspace = workspace

theorem runsTo_follow (count : Nat) (machine : Machine) :
    RunsTo (machine.run count) (system.follow count machine) := by
  induction count generalizing machine with
  | zero => rfl
  | succ count ih =>
    rw [run]
    by_cases halted : machine.halted = true
    · rw [if_pos halted, System.follow_succ_of_end system (system_step_of_halted halted)]
      exact ⟨trivial, rfl⟩
    · rw [if_neg halted]
      rcases taken : machine.step with ⟨outcome, after⟩
      cases outcome with
      | ok =>
        rw [System.follow_succ_of_more system (system_step_of_ok halted taken)]
        exact ih after
      | error error =>
        rw [System.follow_succ_of_end system (system_step_of_error halted taken)]
        exact ⟨rfl, rfl⟩

theorem run_of_reached {later : Machine} (reached : system.follow count machine = .inl later) :
    machine.run count = (if later.halted then .halted else .unfinished, later) := by
  have runs := runsTo_follow count machine
  rwa [reached] at runs

theorem run_of_ended {final : Ending × Workspace} (ended : system.follow count machine = .inr final) :
    (machine.run count).1.Is final.1 ∧ (machine.run count).2.workspace = final.2 := by
  have runs := runsTo_follow count machine
  rwa [ended] at runs

theorem ends_iff (machine : Machine) (ending : Ending) (workspace : Workspace) :
    system.Ends machine (ending, workspace) ↔
      ∃ count, (machine.run count).1.Is ending ∧ (machine.run count).2.workspace = workspace := by
  constructor
  · rintro ⟨count, ended⟩
    exact ⟨count, run_of_ended ended⟩
  · rintro ⟨count, is, rfl⟩
    cases reached : system.follow count machine with
    | inl later =>
      rw [run_of_reached reached] at is ⊢
      by_cases halted : later.halted = true
      · -- the system notices one step later that the machine has halted
        rw [if_pos halted] at is
        cases ending with
        | failed => cases is
        | halted =>
          refine ⟨count + 1, ?_⟩
          rw [System.follow_add system reached]
          exact System.follow_succ_of_end system (system_step_of_halted halted) 0
      · rw [if_neg halted] at is
        cases ending <;> cases is
    | inr found =>
      obtain ⟨is', left⟩ := run_of_ended reached
      rw [is.unique is', left]
      exact ⟨count, reached⟩

def EndsWith (machine : Machine) : Ending → Machine → Prop
  | .halted, final => machine.HaltsWith final
  | .failed kind, final => machine.FailsWith kind final

theorem endsWith_iff (machine : Machine) (ending : Ending) (workspace : Workspace) :
    system.Ends machine (ending, workspace) ↔
      ∃ final, machine.EndsWith ending final ∧ final.workspace = workspace := by
  rw [ends_iff]
  constructor
  · rintro ⟨count, is, left⟩
    rcases ran : machine.run count with ⟨outcome, final⟩
    rw [ran] at is left
    refine ⟨final, ?_, left⟩
    cases ending with
    | halted =>
      cases outcome with
      | halted => exact ⟨count, ran⟩
      | failed | unfinished => cases is
    | failed kind =>
      cases outcome with
      | failed error => exact ⟨count, error, ran, is⟩
      | halted | unfinished => cases is
  · rintro ⟨final, ends, left⟩
    cases ending with
    | halted =>
      obtain ⟨count, ran⟩ := ends
      exact ⟨count, by rw [ran]; exact ⟨trivial, left⟩⟩
    | failed kind =>
      obtain ⟨count, error, ran, same⟩ := ends
      exact ⟨count, by rw [ran]; exact ⟨same, left⟩⟩

theorem diverges_iff (machine : Machine) : machine.Diverges ↔ system.Diverges machine := by
  constructor
  · intro endless count
    obtain ⟨later, ran⟩ := endless count
    cases reached : system.follow count machine with
    | inl later => exact ⟨later, rfl⟩
    | inr found =>
      have is := (run_of_ended reached).1
      rw [ran] at is
      cases ending : found.1 <;> rw [ending] at is <;> cases is
  · intro endless count
    obtain ⟨later, reached⟩ := endless count
    have ran := run_of_reached reached
    by_cases halted : later.halted = true
    · obtain ⟨beyond, further⟩ := endless (count + 1)
      rw [System.follow_add system reached,
        System.follow_succ_of_end system (system_step_of_halted halted)] at further
      cases further
    · rw [if_neg halted] at ran
      exact ⟨later, ran⟩

theorem prints_iff (machine : Machine) (text : String) :
    machine.Prints text ↔ system.Shows machine text ∨
      ∃ ending workspace, system.Ends machine (ending, workspace) ∧
        workspace.console.output = text := by
  constructor
  · rintro ⟨count, printed⟩
    cases reached : system.follow count machine with
    | inl later =>
      rw [run_of_reached reached] at printed
      exact .inl ⟨count, later, reached, printed⟩
    | inr found =>
      refine .inr ⟨found.1, found.2, ⟨count, reached⟩, ?_⟩
      rw [← (run_of_ended reached).2]
      exact printed
  · rintro (⟨count, later, reached, shown⟩ | ⟨ending, workspace, ended, shown⟩)
    · exact ⟨count, by rw [run_of_reached reached]; exact shown⟩
    · obtain ⟨count, _, rfl⟩ := (ends_iff machine ending workspace).1 ended
      exact ⟨count, shown⟩

def seen {View : Type} (view : Memory → View) (final : Ending × Workspace) :
    Ending × String × View :=
  (final.1, final.2.console.output, view final.2.memory)

theorem sameBehaviour_of_agree {View : Type} {view : Memory → View} {first second : Machine}
    (agree : System.Agree (seen view) system system first second) :
    SameBehaviour view first second := by
  have shown : ∀ (machine : Machine) (text : String),
      (∃ ending workspace, system.Ends machine (ending, workspace) ∧
        workspace.console.output = text) ↔
      ∃ ending memory, ∃ final, system.Ends machine final ∧
        seen view final = (ending, text, memory) := by
    intro machine text
    constructor
    · rintro ⟨ending, workspace, ended, rfl⟩
      exact ⟨ending, view workspace.memory, (ending, workspace), ended, rfl⟩
    · rintro ⟨ending, memory, ⟨_, workspace⟩, ended, ⟨⟩⟩
      exact ⟨_, workspace, ended, rfl⟩
  have ended (ending : Ending) (text : String) (memory : View) (machine : Machine) :
      (∃ final, machine.EndsWith ending final ∧ final.console.output = text ∧ view final.memory = memory) ↔
        ∃ final, system.Ends machine final ∧ seen view final = (ending, text, memory) := by
    constructor
    · rintro ⟨final, ends, rfl, rfl⟩
      exact ⟨(ending, final.workspace), (endsWith_iff _ _ _).2 ⟨final, ends, rfl⟩, rfl⟩
    · rintro ⟨⟨_, workspace⟩, ends, ⟨⟩⟩
      obtain ⟨final, given, rfl⟩ := (endsWith_iff _ _ _).1 ends
      exact ⟨final, given, rfl, rfl⟩
  refine ⟨fun text => ?_, ?_, fun text memory => ?_, fun kind text memory => ?_⟩
  · rw [prints_iff, prints_iff, shown, shown]
    simp only [agree.shows text, agree.ends]
  · rw [diverges_iff, diverges_iff]
    exact agree.diverges_iff
  · exact (ended .halted text memory first).trans ((agree.ends _).trans (ended .halted text memory second).symm)
  · exact (ended (.failed kind) text memory first).trans
      ((agree.ends _).trans (ended (.failed kind) text memory second).symm)

/-! ### Runs and walks -/

/-- A machine without a limit and the walk through its program's chart. A halted machine is one step
ahead of a walk that ends. -/
def Walks (code : Code) (machine : Machine) (point : Point) : Prop :=
  machine.program = code ∧ machine.limit = 0 ∧ point.workspace = machine.workspace ∧
    point.position = machine.position ∧
    if machine.halted then (Code.chart code).step point = .inr (.halted, machine.workspace)
    else point = machine.point

theorem walks_progress (inside : Code.TargetsInside code) {point : Point} (walks : Walks code machine point) :
    System.Progress (fun final => final) system (Code.chart code).walk (Walks code)
      (fun machine _ => if machine.halted then 0 else 1) machine point := by
  obtain ⟨rfl, unlimited, same, _, place⟩ := walks
  by_cases halted : machine.halted = true
  · rw [if_pos halted] at place
    exact .finish _ _ (system_step_of_halted halted) place rfl
  rw [if_neg halted] at place
  subst place
  -- a machine that halts now, while the walk comes to its end
  have halting : ∀ after : Machine, machine.step = (.ok (), after) → after.halted = true →
      after.program = machine.program → after.limit = 0 → after.workspace = machine.workspace →
      after.position = machine.position →
      (Code.chart machine.program).step machine.point = .inr (.halted, machine.workspace) →
      System.Progress (fun final => final) system (Code.chart machine.program).walk
        (Walks machine.program) (fun machine _ => if machine.halted then 0 else 1) machine
        machine.point := by
    intro after taken halted' program limit workspace position ended
    refine .left after (system_step_of_ok halted taken)
      ⟨program, limit, workspace.symm, position.symm, ?_⟩ ?_
    · rw [if_pos halted', workspace]
      exact ended
    · simp only [if_pos halted', if_neg halted]
      exact Nat.zero_lt_one
  cases found : machine.program[machine.position]? with
  | none =>
    have charted : Code.chart machine.program machine.position = none := by
      simp only [Code.chart, found, Option.map_none]
    refine halting { machine with halted := true } ?_ rfl rfl unlimited rfl rfl ?_
    · simp only [step, if_neg halted, found]
    · simp only [Chart.step, point, charted]
  | some instr =>
    have charted : Code.chart machine.program machine.position =
        some ⟨instr, machine.position + 1, instr.targetIndex⟩ := by
      simp only [Code.chart, found, Option.map_some]
    have free : ¬ machine.isSpent = true := by simp [isSpent, unlimited]
    have taken := step_eq halted found free
    cases effect : machine.workspace.effect machine.returns.length instr with
    | unknown =>
      rw [effect] at taken
      exact .finish _ _ (system_step_of_error halted taken) (Chart.step_of_unknown charted effect) rfl
    | fault cause left =>
      rw [effect] at taken
      exact .finish _ _ (system_step_of_error halted taken) (Chart.step_of_fault charted effect) rfl
    | flow way result =>
      rw [effect, conclude] at taken
      have walked := @Chart.step_of_flow _ machine.point _ _ _ charted effect
      by_cases halts : way = .halt
      · subst halts
        cases Workspace.effect_halt effect
        exact halting _ taken rfl rfl unlimited rfl rfl walked
      · obtain ⟨next, goes, workspace, program, limit, running, moves⟩ :=
          @goOn_eq_ok (machine.adopt result) instr way halts
            (fun needs => inside _ instr found (Workspace.hasTarget_of_flow effect needs))
            (fun leaves => List.length_pos_iff.1 (Workspace.callers_of_leave (leaves ▸ effect)))
        rw [goes] at taken
        refine .both _ _ (system_step_of_ok halted taken) (walked.trans moves)
          ⟨program, limit.trans unlimited, workspace.symm, rfl, ?_⟩
        have still : ¬ (advance next instr.opcode).halted = true := running ▸ halted
        rw [if_neg still, ← workspace]
        rfl

theorem walks_simulation (inside : Code.TargetsInside code) :
    System.Simulation (fun final => final) system (Code.chart code).walk (Walks code)
      (fun machine _ => if machine.halted then 0 else 1) := by
  refine ⟨fun machine point walks => ?_, fun machine point walks => walks_progress inside walks⟩
  change machine.workspace.console.output = point.workspace.console.output
  rw [walks.2.2.1]

theorem walks_ofProgram (code : Code) (options : Options) (unlimited : options.limit = 0) :
    Walks code (ofProgram code options) (ofProgram code options).point :=
  ⟨rfl, unlimited, rfl, rfl, rfl⟩

theorem ends_ofProgram_iff (inside : Code.TargetsInside code) {options : Options}
    (unlimited : options.limit = 0) (final : Ending × Workspace) :
    system.Ends (ofProgram code options) final ↔
      (Code.chart code).walk.Ends (ofProgram code options).point final := by
  have agree := ((walks_simulation inside).agree (walks_ofProgram code options unlimited)).ends final
  simp only [exists_eq_right] at agree
  exact agree

end Quadruple.Machine
