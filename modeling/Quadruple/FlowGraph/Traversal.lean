/-!
Depth-first search with a stack. A vertex is marked when it is put on the stack, so each is put
there at most once; the search therefore ends, although the graph may have cycles.
-/

namespace Quadruple

/-- What a search still has to do: which vertices are marked, and those to be visited, next first. -/
structure Frontier where
  marked : Array Bool
  stack : List Nat

namespace Frontier

def discover (frontier : Frontier) (vertex : Nat) : Frontier :=
  if frontier.marked[vertex]? = some false then
    ⟨frontier.marked.setIfInBounds vertex true, vertex :: frontier.stack⟩
  else frontier

def measure (frontier : Frontier) : Nat :=
  2 * frontier.marked.count false + frontier.stack.length

theorem measure_discover_le (frontier : Frontier) (vertex : Nat) :
    (frontier.discover vertex).measure ≤ frontier.measure := by
  unfold discover
  split
  · rename_i unmarked
    obtain ⟨inside, value⟩ := Array.getElem?_eq_some_iff.1 unmarked
    have present : 0 < frontier.marked.count false :=
      Array.count_pos_iff.2 (value ▸ Array.getElem_mem inside)
    have fewer := Array.count_set (a := true) (b := false) inside
    simp only [value, beq_self_eq_true, if_true] at fewer
    simp only [measure, Array.setIfInBounds_def, dif_pos inside, List.length_cons, fewer]
    have different : (true == false) = false := rfl
    simp only [different, Bool.false_eq_true, if_false]
    omega
  · exact Nat.le_refl _

theorem measure_discoverAll_le (vertices : List Nat) (frontier : Frontier) :
    (vertices.foldl discover frontier).measure ≤ frontier.measure := by
  induction vertices generalizing frontier with
  | nil => exact Nat.le_refl _
  | cons vertex rest ih => exact Nat.le_trans (ih _) (measure_discover_le frontier vertex)

end Frontier

/-- Visits everything that the vertices on the stack lead to, and gives the visited vertices in
order together with the final marks. -/
def explore (successors : Nat → List Nat) (frontier : Frontier) : List Nat × Array Bool :=
  match frontier with
  | ⟨marked, []⟩ => ([], marked)
  | ⟨marked, vertex :: stack⟩ =>
    let (visited, final) :=
      explore successors ((successors vertex).foldl Frontier.discover ⟨marked, stack⟩)
    (vertex :: visited, final)
termination_by frontier.measure
decreasing_by
  have fewer := Frontier.measure_discoverAll_le (successors vertex) ⟨marked, stack⟩
  simp only [Frontier.measure, List.length_cons] at fewer ⊢
  omega

def Frontier.start (marked : Array Bool) (vertex : Nat) : Frontier :=
  ⟨marked.setIfInBounds vertex true, [vertex]⟩

end Quadruple
