import Mathlib.Data.Nat.Basic

/-!
Deterministic systems and what can be seen of their runs. A run may go on for ever; what is seen of
it is what it shows on the way and, if it ends, a view of its end. Two systems whose states are
related, step by step or with steps that only one of them makes, are seen to do the same: a step that
one system makes alone lowers a rank, so that neither waits for ever.
-/

namespace Quadruple

/-- A system that goes from state to state until it ends. -/
structure System (State End : Type) where
  step : State → State ⊕ End
  output : State → String

namespace System

variable {State State' State'' End View : Type} {state later : State}

def follow (system : System State End) : Nat → State → State ⊕ End
  | 0, state => .inl state
  | more + 1, state =>
    match system.step state with
    | .inl later => follow system more later
    | .inr final => .inr final

def Ends (system : System State End) (state : State) (final : End) : Prop :=
  ∃ count, system.follow count state = .inr final

def Diverges (system : System State End) (state : State) : Prop :=
  ∀ count, ∃ later, system.follow count state = .inl later

def Shows (system : System State End) (state : State) (text : String) : Prop :=
  ∃ count later, system.follow count state = .inl later ∧ system.output later = text

section

variable (system : System State End)
include system

theorem follow_succ_of_more (stepped : system.step state = .inl later) (count : Nat) :
    system.follow (count + 1) state = system.follow count later := by
  simp only [follow, stepped]

theorem follow_succ_of_end {final : End} (stepped : system.step state = .inr final) (count : Nat) :
    system.follow (count + 1) state = .inr final := by
  simp only [follow, stepped]

theorem follow_add {first : Nat} (reached : system.follow first state = .inl later) (second : Nat) :
    system.follow (first + second) state = system.follow second later := by
  induction first generalizing state with
  | zero =>
    cases reached
    rw [Nat.zero_add]
  | succ first ih =>
    rw [Nat.add_right_comm]
    cases stepped : system.step state with
    | inl next =>
      rw [follow_succ_of_more system stepped] at reached ⊢
      exact ih reached
    | inr final =>
      rw [follow_succ_of_end system stepped] at reached
      cases reached

theorem diverges_iff (state : State) :
    system.Diverges state ↔ ∀ final, ¬ system.Ends state final := by
  constructor
  · intro diverges final ⟨count, ended⟩
    obtain ⟨later, reached⟩ := diverges count
    rw [reached] at ended
    cases ended
  · intro endless count
    cases reached : system.follow count state with
    | inl later => exact ⟨later, rfl⟩
    | inr final => exact absurd ⟨count, reached⟩ (endless final)

end

/-- Two systems are seen to do the same from two states. -/
structure Agree (view : End → View) (first : System State End) (second : System State' End)
    (state : State) (state' : State') : Prop where
  ends : ∀ seen, (∃ final, first.Ends state final ∧ view final = seen) ↔
    (∃ final, second.Ends state' final ∧ view final = seen)
  shows : ∀ text, first.Shows state text ↔ second.Shows state' text

namespace Agree

variable {view : End → View} {first : System State End} {second : System State' End}
  {third : System State'' End} {state : State} {state' : State'} {state'' : State''}

theorem refl (view : End → View) (system : System State End) (state : State) :
    Agree view system system state state :=
  ⟨fun _ => Iff.rfl, fun _ => Iff.rfl⟩

theorem trans (left : Agree view first second state state')
    (right : Agree view second third state' state'') : Agree view first third state state'' :=
  ⟨fun seen => (left.ends seen).trans (right.ends seen),
    fun text => (left.shows text).trans (right.shows text)⟩

theorem coarsen {Coarse : Type} (blur : View → Coarse)
    (agree : Agree view first second state state') :
    Agree (fun final => blur (view final)) first second state state' := by
  refine ⟨fun seen => ?_, agree.shows⟩
  constructor
  · rintro ⟨final, ended, rfl⟩
    obtain ⟨final', ended', same⟩ := (agree.ends (view final)).1 ⟨final, ended, rfl⟩
    exact ⟨final', ended', congrArg blur same⟩
  · rintro ⟨final', ended', rfl⟩
    obtain ⟨final, ended, same⟩ := (agree.ends (view final')).2 ⟨final', ended', rfl⟩
    exact ⟨final, ended, congrArg blur same⟩

theorem diverges_iff (agree : Agree view first second state state') :
    first.Diverges state ↔ second.Diverges state' := by
  rw [System.diverges_iff, System.diverges_iff]
  constructor
  · intro endless final ended
    obtain ⟨final', ended', _⟩ := (agree.ends (view final)).2 ⟨final, ended, rfl⟩
    exact endless final' ended'
  · intro endless final ended
    obtain ⟨final', ended', _⟩ := (agree.ends (view final)).1 ⟨final, ended, rfl⟩
    exact endless final' ended'

end Agree

/-- How two related states go on: both end alike, both step to related states, or one of them steps
and is still related to the other, with a lower rank. -/
inductive Progress (view : End → View) (first : System State End) (second : System State' End)
    (Related : State → State' → Prop) (rank : State → State' → Nat) (state : State)
    (state' : State') : Prop where
  | finish (final final' : End) (ended : first.step state = .inr final)
      (ended' : second.step state' = .inr final') (alike : view final = view final')
  | both (later : State) (later' : State') (stepped : first.step state = .inl later)
      (stepped' : second.step state' = .inl later') (related : Related later later')
  | left (later : State) (stepped : first.step state = .inl later)
      (related : Related later state') (lower : rank later state' < rank state state')
  | right (later' : State') (stepped' : second.step state' = .inl later')
      (related : Related state later') (lower : rank state later' < rank state state')

/-- A relation under which two systems keep pace. -/
structure Simulation (view : End → View) (first : System State End) (second : System State' End)
    (Related : State → State' → Prop) (rank : State → State' → Nat) : Prop where
  output : ∀ state state', Related state state' → first.output state = second.output state'
  progress : ∀ state state', Related state state' →
    Progress view first second Related rank state state'

namespace Simulation

variable {view : End → View} {first : System State End} {second : System State' End}
  {Related : State → State' → Prop} {rank : State → State' → Nat} {state : State} {state' : State'}

section

variable (simulation : Simulation view first second Related rank)
include simulation

theorem symm :
    Simulation view second first (fun state' state => Related state state')
      (fun state' state => rank state state') := by
  refine ⟨fun state' state related => (simulation.output state state' related).symm, ?_⟩
  intro state' state related
  cases simulation.progress state state' related with
  | finish final final' ended ended' alike => exact .finish final' final ended' ended alike.symm
  | both later later' stepped stepped' related => exact .both later' later stepped' stepped related
  | left later stepped related lower => exact .right later stepped related lower
  | right later' stepped' related lower => exact .left later' stepped' related lower

/-- Where one system comes, the other comes too: to a related state, or to an end that is seen alike. -/
theorem keepsPace (count : Nat) (related : Related state state') :
    ∃ count', Sum.LiftRel Related (fun final final' => view final = view final')
      (first.follow count state) (second.follow count' state') := by
  induction count generalizing state state' with
  | zero => exact ⟨0, .inl related⟩
  | succ count ih =>
    -- steps that the second system makes alone leave the count as it is and lower the rank
    induction level : rank state state' using Nat.strongRecOn generalizing state' with
    | ind level lower =>
      cases simulation.progress state state' related with
      | finish final final' ended ended' alike =>
        refine ⟨1, ?_⟩
        rw [follow_succ_of_end first ended, follow_succ_of_end second ended']
        exact .inr alike
      | both next next' stepped stepped' related =>
        obtain ⟨count', pace⟩ := ih related
        exact ⟨count' + 1, by rwa [follow_succ_of_more first stepped, follow_succ_of_more second stepped']⟩
      | left next stepped related _ =>
        rw [follow_succ_of_more first stepped]
        exact ih related
      | right next' stepped' related smaller =>
        obtain ⟨count', pace⟩ := lower _ (level ▸ smaller) related rfl
        exact ⟨count' + 1, by rwa [follow_succ_of_more second stepped']⟩

section

variable (related : Related state state')
include related

theorem reach {count : Nat} {later : State} (reached : first.follow count state = .inl later) :
    ∃ count' later', second.follow count' state' = .inl later' ∧ Related later later' := by
  obtain ⟨count', pace⟩ := simulation.keepsPace count related
  rw [reached] at pace
  cases there : second.follow count' state' <;> rw [there] at pace <;> cases pace
  exact ⟨count', _, there, ‹_›⟩

theorem finish {final : End} (ended : first.Ends state final) :
    ∃ final', second.Ends state' final' ∧ view final' = view final := by
  obtain ⟨count, ended⟩ := ended
  obtain ⟨count', pace⟩ := simulation.keepsPace count related
  rw [ended] at pace
  cases there : second.follow count' state' <;> rw [there] at pace <;> cases pace
  exact ⟨_, ⟨count', there⟩, Eq.symm ‹_›⟩

theorem shows {text : String} (shown : first.Shows state text) : second.Shows state' text := by
  obtain ⟨count, later, reached, same⟩ := shown
  obtain ⟨count', later', reached', relatedLater⟩ := simulation.reach related reached
  exact ⟨count', later', reached', (simulation.output later later' relatedLater).symm.trans same⟩

theorem agree : Agree view first second state state' := by
  refine ⟨fun seen => ?_, fun text => ⟨simulation.shows related, simulation.symm.shows related⟩⟩
  constructor
  · rintro ⟨final, ended, rfl⟩
    exact simulation.finish related ended
  · rintro ⟨final', ended, rfl⟩
    exact simulation.symm.finish related ended

end

end

end Simulation

end System

end Quadruple
