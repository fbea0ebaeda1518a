import Mathlib.Data.List.Forall2
import Quadruple.FlowGraph.Basic
import Quadruple.Proofs.Walk

/-!
Charts that hold the same instructions at different places. Where two charts lead from related places
to related places, and an unconditional jump of either chart may stand between them, walks from
related places do the same with the same workspace.
-/

namespace Quadruple

namespace Instruction

/-- The same instruction, up to the index that a jump or call names. -/
structure Like (first second : Instruction) : Prop where
  opcode : first.opcode = second.opcode
  left : first.left = second.left
  right : first.right = second.right
  result : first.opcode.hasTarget = false → first.result = second.result

theorem Like.refl (instr : Instruction) : Like instr instr :=
  ⟨rfl, rfl, rfl, fun _ => rfl⟩

variable {first second : Instruction}

theorem Like.eq (alike : Like first second)
    (plain : first.opcode.hasTarget = false) : first = second := by
  have result := alike.result plain
  obtain ⟨opcode, left, right, _⟩ := alike
  cases first
  cases second
  simp only at opcode left right result
  rw [opcode, left, right, result]

end Instruction

/-- What an instruction does is independent of the index that it names. -/
theorem Workspace.effect_like (workspace : Workspace) (callers : Nat) (alike : first.Like second) :
    workspace.effect callers first = workspace.effect callers second := by
  by_cases plain : first.opcode.hasTarget = false
  · rw [alike.eq plain]
  have same := alike.opcode
  cases named : first.opcode with
  | goto =>
    rw [named] at same
    simp only [effect, named, ← same]
  | gotoTrue | gotoFalse =>
    rw [named] at same
    simp only [effect, named, ← same, branch, alike.left]
  | call =>
    rw [named] at same
    simp only [effect, named, ← same, call, alike.left]
  | _ =>
    rw [named] at plain
    exact absurd rfl plain

theorem Flow.fallsThrough_of_next {opcode : Opcode} (fits : Flow.next.Fits opcode) :
    FlowGraph.fallsThrough opcode := by
  obtain ⟨notGoto, _, notRet, notExit⟩ := fits
  cases opcode with
  | goto => exact absurd rfl notGoto
  | ret => exact absurd rfl notRet
  | exit => exact absurd rfl notExit
  | _ => rfl

theorem Flow.hasTarget_of_target {opcode : Opcode} (fits : Flow.target.Fits opcode) :
    opcode.hasTarget := by
  cases opcode <;> first | rfl | cases fits

namespace Chart

variable {first second : Chart} {Related : Nat → Nat → Prop} {rank : Nat → Nat → Nat}

/-- How the places of two charts correspond. -/
inductive Meets (first second : Chart) (Related : Nat → Nat → Prop) (rank : Nat → Nat → Nat)
    (place place' : Nat) : Prop where
  | finish (ended : first place = none) (ended' : second place' = none)
  | same (site site' : Site) (found : first place = some site) (found' : second place' = some site')
      (alike : site.instruction.Like site'.instruction)
      (next : FlowGraph.fallsThrough site.instruction.opcode → Related site.next site'.next)
      (target : site.instruction.opcode.hasTarget → Related site.target site'.target)
  | left (site : Site) (found : first place = some site) (jumps : site.instruction.opcode = .goto)
      (related : Related site.target place') (lower : rank site.target place' < rank place place')
  | right (site' : Site) (found' : second place' = some site')
      (jumps : site'.instruction.opcode = .goto) (related : Related place site'.target)
      (lower : rank place site'.target < rank place place')

def Reroutes (Related : Nat → Nat → Prop) (point point' : Point) : Prop :=
  point.workspace = point'.workspace ∧ Related point.position point'.position ∧
    List.Forall₂ Related point.returns point'.returns

theorem step_goto {chart : Chart} {point : Point} {site : Site}
    (found : chart point.position = some site) (jumps : site.instruction.opcode = .goto) :
    chart.walk.step point = .inl ⟨point.workspace, site.target, point.returns⟩ := by
  have flows : point.workspace.effect point.returns.length site.instruction =
      .flow .target point.workspace := by simp only [Workspace.effect, jumps]
  exact step_of_flow found flows

theorem progress_same {point point' : Point} {site site' : Site}
    (reroutes : Reroutes Related point point') (found : first point.position = some site)
    (found' : second point'.position = some site')
    (alike : site.instruction.Like site'.instruction)
    (next : FlowGraph.fallsThrough site.instruction.opcode → Related site.next site'.next)
    (target : site.instruction.opcode.hasTarget → Related site.target site'.target) :
    System.Progress (fun final => final) first.walk second.walk (Reroutes Related)
      (fun point point' => rank point.position point'.position) point point' := by
  obtain ⟨workspace, related, returns⟩ := reroutes
  have effects : point'.workspace.effect point'.returns.length site'.instruction =
      point.workspace.effect point.returns.length site.instruction := by
    rw [← workspace, ← returns.length_eq, Workspace.effect_like _ _ alike]
  cases effect : point.workspace.effect point.returns.length site.instruction with
  | unknown =>
    exact .finish _ _ (step_of_unknown found effect) (step_of_unknown found' (effects.trans effect))
      (by rw [workspace])
  | fault cause left =>
    exact .finish _ _ (step_of_fault found effect) (step_of_fault found' (effects.trans effect)) rfl
  | flow way result =>
    have stepped := step_of_flow found effect
    have stepped' := step_of_flow found' (effects.trans effect)
    have fits := Workspace.effect_fits effect
    cases way with
    | next =>
      exact .both _ _ stepped stepped' ⟨rfl, next (Flow.fallsThrough_of_next fits), returns⟩
    | target =>
      exact .both _ _ stepped stepped' ⟨rfl, target (Flow.hasTarget_of_target fits), returns⟩
    | enter =>
      have calls : site.instruction.opcode = .call := fits
      rw [calls] at next target
      exact .both _ _ stepped stepped' ⟨rfl, target rfl, .cons (next rfl) returns⟩
    | leave =>
      generalize point.returns = callers at returns stepped
      generalize point'.returns = callers' at returns stepped'
      cases returns with
      | nil => exact .finish _ _ stepped stepped' rfl
      | cons related others => exact .both _ _ stepped stepped' ⟨rfl, related, others⟩
    | halt => exact .finish _ _ stepped stepped' rfl

theorem reroutes_simulation
    (meets : ∀ place place', Related place place' → Meets first second Related rank place place') :
    System.Simulation (fun final => final) first.walk second.walk (Reroutes Related)
      (fun point point' => rank point.position point'.position) := by
  constructor
  · rintro point point' ⟨workspace, _, _⟩
    change point.workspace.console.output = point'.workspace.console.output
    rw [workspace]
  · intro point point' reroutes
    have ⟨workspace, related, returns⟩ := reroutes
    cases meets point.position point'.position related with
    | finish ended ended' =>
      refine .finish (.halted, point.workspace) (.halted, point'.workspace) ?_ ?_ (by rw [workspace])
      · simp only [walk, step, ended]
      · simp only [walk, step, ended']
    | same site site' found found' alike next target =>
      exact progress_same reroutes found found' alike next target
    | left site found jumps related' lower =>
      exact .left _ (step_goto found jumps) ⟨workspace, related', returns⟩ lower
    | right site' found' jumps related' lower =>
      exact .right _ (step_goto found' jumps) ⟨workspace, related', returns⟩ lower

end Chart

end Quadruple
