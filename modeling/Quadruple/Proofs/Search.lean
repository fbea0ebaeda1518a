import Mathlib.Data.List.Nodup
import Mathlib.Logic.Relation
import Mathlib.Tactic.ByContra
import Mathlib.Tactic.Tauto
import Quadruple.FlowGraph.Traversal

/-!
A search visits exactly what it can reach: every vertex to which the vertices on the stack lead,
without passing through one that was marked before, and each of them once.
-/

namespace Quadruple

def Leads (successors : Nat → List Nat) : Nat → Nat → Prop :=
  Relation.ReflTransGen fun vertex other => other ∈ successors vertex

namespace Frontier

/-- The vertices to be visited are marked, and each of them is on the stack once. -/
structure Sound (frontier : Frontier) : Prop where
  nodup : frontier.stack.Nodup
  marked : ∀ vertex ∈ frontier.stack, frontier.marked[vertex]? = some true

section

variable (frontier : Frontier) (vertex : Nat)

@[simp]
theorem size_discover : (frontier.discover vertex).marked.size = frontier.marked.size := by
  unfold discover
  split
  · exact Array.size_setIfInBounds
  · rfl

theorem marked_discover (other : Nat) :
    (frontier.discover vertex).marked[other]? = some true ↔
      frontier.marked[other]? = some true ∨ (other = vertex ∧ other < frontier.marked.size) := by
  unfold discover
  by_cases fresh : frontier.marked[vertex]? = some false
  · obtain ⟨inside, _⟩ := Array.getElem?_eq_some_iff.1 fresh
    rw [if_pos fresh, Array.getElem?_setIfInBounds]
    by_cases same : vertex = other
    · subst same
      simp [inside]
    · have different : ¬ other = vertex := fun equal => same equal.symm
      simp [same, different]
  · rw [if_neg fresh]
    refine ⟨.inl, ?_⟩
    rintro (marked | ⟨rfl, inside⟩)
    · exact marked
    · rw [Array.getElem?_eq_getElem inside] at fresh ⊢
      simpa using fresh

theorem mem_stack_discover (other : Nat) :
    other ∈ (frontier.discover vertex).stack ↔
      other ∈ frontier.stack ∨ (other = vertex ∧ frontier.marked[other]? = some false) := by
  unfold discover
  by_cases fresh : frontier.marked[vertex]? = some false
  · rw [if_pos fresh]
    constructor
    · intro onStack
      rcases List.mem_cons.1 onStack with rfl | already
      · exact .inr ⟨rfl, fresh⟩
      · exact .inl already
    · rintro (already | ⟨rfl, _⟩)
      · exact List.mem_cons_of_mem _ already
      · exact List.mem_cons_self
  · rw [if_neg fresh]
    refine ⟨.inl, ?_⟩
    rintro (already | ⟨rfl, unmarked⟩)
    · exact already
    · exact absurd unmarked fresh

end

theorem Sound.discover {frontier : Frontier} (sound : frontier.Sound) (vertex : Nat) :
    (frontier.discover vertex).Sound := by
  constructor
  · unfold Frontier.discover
    by_cases fresh : frontier.marked[vertex]? = some false
    · rw [if_pos fresh]
      refine List.nodup_cons.2 ⟨fun already => ?_, sound.nodup⟩
      rw [sound.marked vertex already] at fresh
      cases fresh
    · rw [if_neg fresh]
      exact sound.nodup
  · intro other onStack
    rw [marked_discover]
    rcases (mem_stack_discover frontier vertex other).1 onStack with already | ⟨same, unmarked⟩
    · exact .inl (sound.marked other already)
    · obtain ⟨inside, _⟩ := Array.getElem?_eq_some_iff.1 unmarked
      exact .inr ⟨same, inside⟩

theorem Sound.discoverAll {frontier : Frontier} (sound : frontier.Sound) (vertices : List Nat) :
    (vertices.foldl Frontier.discover frontier).Sound := by
  induction vertices generalizing frontier with
  | nil => exact sound
  | cons vertex rest ih => exact ih (sound.discover vertex)

@[simp]
theorem size_discoverAll (frontier : Frontier) (vertices : List Nat) :
    (vertices.foldl discover frontier).marked.size = frontier.marked.size := by
  induction vertices generalizing frontier with
  | nil => rfl
  | cons vertex rest ih => exact (ih _).trans (size_discover frontier vertex)

theorem marked_discoverAll (frontier : Frontier) (vertices : List Nat) (other : Nat) :
    (vertices.foldl discover frontier).marked[other]? = some true ↔
      frontier.marked[other]? = some true ∨
        (other ∈ vertices ∧ other < frontier.marked.size) := by
  induction vertices generalizing frontier with
  | nil => simp
  | cons vertex rest ih =>
    rw [List.foldl_cons, ih, marked_discover, size_discover, List.mem_cons]
    tauto

theorem mem_stack_discoverAll (frontier : Frontier) (vertices : List Nat) (other : Nat) :
    other ∈ (vertices.foldl discover frontier).stack ↔
      other ∈ frontier.stack ∨
        (other ∈ vertices ∧ frontier.marked[other]? = some false) := by
  induction vertices generalizing frontier with
  | nil => simp
  | cons vertex rest ih =>
    rw [List.foldl_cons, ih, mem_stack_discover, List.mem_cons]
    by_cases same : other = vertex
    · subst same
      by_cases fresh : frontier.marked[other]? = some false
      · simp [fresh]
      · have kept : (frontier.discover other).marked = frontier.marked := by
          simp only [discover, if_neg fresh]
        simp [fresh, kept]
    · have kept : (frontier.discover vertex).marked[other]? = frontier.marked[other]? := by
        unfold discover
        split
        · rw [Array.getElem?_setIfInBounds_ne (fun equal => same equal.symm)]
        · rfl
      simp [same, kept]

theorem sound_start {marked : Array Bool} {vertex : Nat} (inside : vertex < marked.size) :
    (start marked vertex).Sound := by
  refine ⟨List.nodup_singleton vertex, fun other onStack => ?_⟩
  rw [List.mem_singleton.1 onStack]
  simp [start, inside]

end Frontier

section

variable (successors : Nat → List Nat) {vertex other : Nat}

theorem explore_nil (marked : Array Bool) :
    explore successors ⟨marked, []⟩ = ([], marked) := by
  rw [explore]

theorem explore_cons (marked : Array Bool) (vertex : Nat) (stack : List Nat) :
    explore successors ⟨marked, vertex :: stack⟩ =
      (vertex :: (explore successors
          ((successors vertex).foldl Frontier.discover ⟨marked, stack⟩)).1,
        (explore successors ((successors vertex).foldl Frontier.discover ⟨marked, stack⟩)).2) := by
  rw [explore]

theorem size_explore (frontier : Frontier) :
    (explore successors frontier).2.size = frontier.marked.size := by
  induction frontier using explore.induct successors with
  | case1 marked => rw [explore_nil]
  | case2 marked vertex stack _ _ _ ih =>
    rw [explore_cons]
    exact ih.trans (Frontier.size_discoverAll ⟨marked, stack⟩ _)

theorem mem_explore_of_mem_stack (frontier : Frontier) (onStack : other ∈ frontier.stack) :
    other ∈ (explore successors frontier).1 := by
  induction frontier using explore.induct successors with
  | case1 marked => cases onStack
  | case2 marked vertex stack _ _ _ ih =>
    rw [explore_cons]
    rcases List.mem_cons.1 onStack with rfl | below
    · exact List.mem_cons_self
    · exact List.mem_cons_of_mem _
        (ih ((Frontier.mem_stack_discoverAll ⟨marked, stack⟩ _ other).2 (.inl below)))

theorem Frontier.Sound.tail {marked : Array Bool} {vertex : Nat} {stack : List Nat}
    (sound : Frontier.Sound ⟨marked, vertex :: stack⟩) : Frontier.Sound ⟨marked, stack⟩ :=
  ⟨sound.nodup.of_cons, fun other below => sound.marked other (List.mem_cons_of_mem _ below)⟩

section

variable (frontier : Frontier)
include frontier

theorem marked_explore (sound : frontier.Sound) :
    (explore successors frontier).2[other]? = some true ↔
      frontier.marked[other]? = some true ∨ other ∈ (explore successors frontier).1 := by
  induction frontier using explore.induct successors with
  | case1 marked => simp [explore_nil]
  | case2 marked vertex stack _ _ _ ih =>
    have tail := sound.tail
    rw [explore_cons]
    simp only [ih (tail.discoverAll _), Frontier.marked_discoverAll, List.mem_cons]
    constructor
    · rintro ((before | ⟨led, inside⟩) | later)
      · exact .inl before
      · -- a successor is marked already, or it is put on the stack and visited later
        by_cases before : marked[other]? = some true
        · exact .inl before
        · have fresh : marked[other]? = some false := by
            rw [Array.getElem?_eq_getElem inside] at before ⊢
            simpa using before
          exact .inr (.inr (mem_explore_of_mem_stack successors _
            ((Frontier.mem_stack_discoverAll _ _ _).2 (.inr ⟨led, fresh⟩))))
      · exact .inr (.inr later)
    · rintro (before | rfl | later)
      · exact .inl (.inl before)
      · exact .inl (.inl (sound.marked other List.mem_cons_self))
      · exact .inr later

theorem marked_of_explored (sound : frontier.Sound)
    (visited : vertex ∈ (explore successors frontier).1) (led : other ∈ successors vertex)
    (inside : other < frontier.marked.size) :
    (explore successors frontier).2[other]? = some true := by
  induction frontier using explore.induct successors with
  | case1 marked =>
    rw [explore_nil] at visited
    cases visited
  | case2 marked top stack _ _ _ ih =>
    rw [explore_cons] at visited ⊢
    rcases List.mem_cons.1 visited with rfl | later
    · rw [marked_explore successors _ (sound.tail.discoverAll _), Frontier.marked_discoverAll]
      exact .inl (.inr ⟨led, inside⟩)
    · exact ih (sound.tail.discoverAll _) later (by rw [Frontier.size_discoverAll]; exact inside)

theorem nodup_explore (sound : frontier.Sound) :
    (explore successors frontier).1.Nodup ∧ ∀ vertex ∈ (explore successors frontier).1,
      vertex ∈ frontier.stack ∨ frontier.marked[vertex]? = some false := by
  induction frontier using explore.induct successors with
  | case1 marked => simp [explore_nil]
  | case2 marked vertex stack _ _ _ ih =>
    obtain ⟨nodup, fresh⟩ := ih (sound.tail.discoverAll _)
    -- what is visited later was on the stack below, or not yet marked before
    have origin : ∀ other ∈ (explore successors
        ((successors vertex).foldl Frontier.discover ⟨marked, stack⟩)).1,
        other ∈ stack ∨ marked[other]? = some false := by
      intro other later
      rcases fresh other later with onStack | unmarked
      · rcases (Frontier.mem_stack_discoverAll _ _ _).1 onStack with below | ⟨_, unmarked⟩
        · exact .inl below
        · exact .inr unmarked
      · obtain ⟨inside, _⟩ := Array.getElem?_eq_some_iff.1 unmarked
        rw [Frontier.size_discoverAll] at inside
        refine .inr ?_
        by_contra marks
        have before : marked[other]? = some true := by
          rw [Array.getElem?_eq_getElem inside] at marks ⊢
          simpa using marks
        rw [(Frontier.marked_discoverAll ⟨marked, stack⟩ _ other).2 (.inl before)] at unmarked
        cases unmarked
    rw [explore_cons]
    constructor
    · refine List.nodup_cons.2 ⟨fun again => ?_, nodup⟩
      rcases origin vertex again with below | unmarked
      · exact (List.nodup_cons.1 sound.nodup).1 below
      · rw [sound.marked vertex List.mem_cons_self] at unmarked
        cases unmarked
    · intro other visited
      rcases List.mem_cons.1 visited with rfl | later
      · exact .inl List.mem_cons_self
      · exact (origin other later).imp (List.mem_cons_of_mem _) id

theorem leads_of_explored (visited : other ∈ (explore successors frontier).1) :
    ∃ vertex ∈ frontier.stack, Leads successors vertex other := by
  induction frontier using explore.induct successors with
  | case1 marked =>
    rw [explore_nil] at visited
    cases visited
  | case2 marked top stack _ _ _ ih =>
    rw [explore_cons] at visited
    rcases List.mem_cons.1 visited with rfl | later
    · exact ⟨other, List.mem_cons_self, .refl⟩
    · obtain ⟨vertex, onStack, leads⟩ := ih later
      rcases (Frontier.mem_stack_discoverAll _ _ _).1 onStack with below | ⟨led, _⟩
      · exact ⟨vertex, List.mem_cons_of_mem _ below, leads⟩
      · exact ⟨top, List.mem_cons_self, .head led leads⟩

/-- What is visited was on the stack, or something visited before leads to it. -/
theorem source_of_explored {before after : List Nat}
    (visited : (explore successors frontier).1 = before ++ vertex :: after) :
    vertex ∈ frontier.stack ∨ ∃ source ∈ before, vertex ∈ successors source := by
  induction frontier using explore.induct successors generalizing before with
  | case1 marked =>
    rw [explore_nil] at visited
    cases before <;> cases visited
  | case2 marked top stack _ _ _ ih =>
    rw [explore_cons] at visited
    cases before with
    | nil => exact .inl (by rw [(List.cons.inj visited).1]; exact List.mem_cons_self)
    | cons first before =>
      obtain ⟨rfl, later⟩ := List.cons.inj visited
      rcases ih later with onStack | ⟨source, earlier, leads⟩
      · rcases (Frontier.mem_stack_discoverAll _ _ _).1 onStack with below | ⟨leads, _⟩
        · exact .inl (List.mem_cons_of_mem _ below)
        · exact .inr ⟨top, List.mem_cons_self, leads⟩
      · exact .inr ⟨source, List.mem_cons_of_mem _ earlier, leads⟩

end

end

end Quadruple
