import Mathlib.Algebra.BigOperators.Group.List.Lemmas
import Mathlib.Data.List.Count
import Quadruple.Proofs.Activations
import Quadruple.Proofs.ImageCodec
import Quadruple.Proofs.StepLimits

/-!
What a profile says of a run. Its tables count the instructions that were executed and the calls among them,
whatever fails in between, and the machine goes the same way without it.
-/

namespace Quadruple

open Std

/-! ### Tables of counts -/

section

variable {κ υ : Type} [Ord κ] [DecidableEq κ] {row : Nat → υ} {table after : TreeMap κ υ} {keys : List κ}
  {key : κ} {given : υ}

/-- The table has a row for each key in the list, which says how often the key stands there. -/
def Tallies (row : Nat → υ) (table : TreeMap κ υ) (keys : List κ) : Prop :=
  ∀ key, table[key]? = if key ∈ keys then some (row (keys.count key)) else none

variable (tallies : Tallies row table keys)
include tallies

theorem Tallies.getD (key : κ) : table[key]?.getD (row 0) = row (keys.count key) := by
  rw [tallies key]
  split
  · rfl
  · rename_i absent
    rw [List.count_eq_zero.2 absent, Option.getD_none]

variable [LawfulEqOrd κ]

theorem Tallies.cons
    (changed : ∀ other, after[other]? =
      if compare key other = .eq then some (row (keys.count key + 1)) else table[other]?) :
    Tallies row after (key :: keys) := by
  intro other
  rw [changed other]
  by_cases same : key = other
  · subst same
    simp
  · simp [same, Ne.symm same, tallies other]

variable [TransOrd κ]

theorem Tallies.mem_toList :
    (key, given) ∈ table.toList ↔ given = row (keys.count key) ∧ 0 < keys.count key := by
  rw [TreeMap.mem_toList_iff_getElem?_eq_some, tallies key]
  split
  · rename_i present
    simp [List.count_pos_iff.2 present, eq_comm]
  · rename_i absent
    simp [List.count_eq_zero.2 absent]

theorem Tallies.total (size : υ → Nat) (sizes : ∀ count, size (row count) = count) :
    table.toList.foldl (fun total row => total + size row.2) 0 = keys.length := by
  have distinct : (table.toList.map Prod.fst).Nodup :=
    List.pairwise_map.2 (TreeMap.distinct_keys_toList.imp fun different same => different (by simp [same]))
  have keyed : (table.toList.map Prod.fst).Perm keys.dedup := by
    refine (List.perm_ext_iff_of_nodup distinct keys.nodup_dedup).2 fun key => ?_
    simp only [List.mem_map, Prod.exists, tallies.mem_toList, List.mem_dedup]
    constructor
    · rintro ⟨_, _, ⟨rfl, positive⟩, rfl⟩
      exact List.count_pos_iff.1 positive
    · exact fun present => ⟨key, _, ⟨rfl, List.count_pos_iff.2 present⟩, rfl⟩
  have counts : table.toList.map (fun row => size row.2) =
      (table.toList.map Prod.fst).map keys.count := by
    rw [List.map_map]
    refine List.map_congr_left fun row listed => ?_
    rw [(tallies.mem_toList.1 listed).1, sizes]
    rfl
  have folded : table.toList.foldl (fun total row => total + size row.2) 0 =
      (table.toList.map fun row => size row.2).foldl (· + ·) 0 := List.foldl_map.symm
  rw [folded, ← List.sum_eq_foldl, counts, (keyed.map _).sum_eq, List.sum_map_count_dedup_eq_length]

end

/-! ### Profiles -/

namespace Profile

variable {profile : Profile} {opcodes : List Opcode} {calls : List Int} {opcode : Opcode} {count : Nat}
  {entry : Int}

/-- A function that was called a number of times is marked if the threshold is reached. -/
def called (threshold count : Nat) : FunctionProfile :=
  ⟨count, 0 < count ∧ threshold ≤ count⟩

/-- A profile counts opcodes that were executed, and the entries that were called. -/
structure Counts (profile : Profile) (opcodes : List Opcode) (calls : List Int) : Prop where
  opcodes : Tallies id profile.opcodes (opcodes.map fun opcode => opcode.code.toNat)
  calls : Tallies (called profile.threshold) profile.calls calls
  hot : profile.hot = profile.hotEntries.length

theorem mem_hotEntries (tallies : Tallies (called profile.threshold) profile.calls calls) :
    entry ∈ profile.hotEntries ↔ (called profile.threshold (calls.count entry)).isHot = true := by
  simp only [hotEntries, List.mem_map, List.mem_filter, Prod.exists, tallies.mem_toList]
  constructor
  · rintro ⟨_, _, ⟨⟨rfl, _⟩, isHot⟩, rfl⟩
    exact isHot
  · intro isHot
    exact ⟨entry, _, ⟨⟨rfl, (of_decide_eq_true isHot).1⟩, isHot⟩, rfl⟩

theorem hotEntries_ascending (profile : Profile) : profile.hotEntries.Pairwise (· < ·) :=
  List.pairwise_map.2 ((TreeMap.ordered_keys_toList.imp Int.compare_eq_lt.1).filter _)

theorem nodup_hotEntries (profile : Profile) : profile.hotEntries.Nodup :=
  profile.hotEntries_ascending.imp Int.ne_of_lt

theorem count_codes (opcodes : List Opcode) (opcode : Opcode) :
    (opcodes.map fun opcode => opcode.code.toNat).count opcode.code.toNat = opcodes.count opcode :=
  opcodes.count_map_of_injective (fun opcode => opcode.code.toNat) (fun first second same => by
    rw [← Opcode.ofCode_code first, UInt8.toNat_inj.1 same, Opcode.ofCode_code]) opcode

section

variable (counts : profile.Counts opcodes calls)
include counts

theorem Counts.recordOpcode (opcode : Opcode) :
    (profile.recordOpcode opcode).Counts (opcode :: opcodes) calls := by
  refine ⟨counts.opcodes.cons fun _ => TreeMap.getElem?_alter.trans ?_, counts.calls, counts.hot⟩
  have count : profile.opcodes[opcode.code.toNat]?.getD 0 = _ := counts.opcodes.getD opcode.code.toNat
  rw [count]
  rfl

theorem Counts.function (entry : Int) :
    profile.function entry = called profile.threshold (calls.count entry) :=
  counts.calls.getD entry

/-- A call makes at most the function that it enters hot, which it was not before. -/
theorem Counts.recordCall (entry : Int) : (profile.recordCall entry).Counts opcodes (entry :: calls) := by
  have before := counts.function entry
  -- The mark, once set, stays, as the count only grows.
  have marked : ((profile.function entry).isHot || profile.becomesHot entry) =
      (called profile.threshold (calls.count entry + 1)).isHot := by
    simp only [becomesHot, before, called]
    grind
  have tallies : Tallies (called profile.threshold) (profile.recordCall entry).calls (entry :: calls) := by
    refine counts.calls.cons fun _ => TreeMap.getElem?_insert.trans ?_
    rw [marked, before]
    rfl
  have later (other : Int) : other ∈ (profile.recordCall entry).hotEntries ↔
      other = entry ∧ profile.becomesHot entry = true ∨ other ∈ profile.hotEntries := by
    rw [mem_hotEntries tallies, mem_hotEntries counts.calls]
    change (called profile.threshold _).isHot = true ↔ _
    by_cases same : other = entry
    · subst same
      rw [List.count_cons_self, ← marked, ← before]
      simp [or_comm]
    · rw [List.count_cons_of_ne (Ne.symm same)]
      simp [same]
  refine ⟨counts.opcodes, tallies, ?_⟩
  have distinct := (profile.recordCall entry).nodup_hotEntries
  change (if profile.becomesHot entry = true then profile.hot + 1 else profile.hot) = _
  rw [counts.hot]
  by_cases becomes : profile.becomesHot entry = true
  · have cold : entry ∉ profile.hotEntries := by
      rw [mem_hotEntries counts.calls, ← before]
      simp only [becomesHot, Bool.and_eq_true, Bool.not_eq_true'] at becomes
      simp [becomes.1]
    have same := (List.perm_ext_iff_of_nodup distinct
      (List.nodup_cons.2 ⟨cold, profile.nodup_hotEntries⟩)).2 fun other => by
        rw [later, List.mem_cons]
        simp [becomes]
    rw [if_pos becomes, same.length_eq, List.length_cons]
  · have same := (List.perm_ext_iff_of_nodup distinct profile.nodup_hotEntries).2 fun other => by
      rw [later]
      simp [becomes]
    rw [if_neg becomes, same.length_eq]

theorem Counts.code_ofCode {code : Nat} (listed : (code, count) ∈ profile.opcodes.toList) :
    (Opcode.ofCode (UInt8.ofNat code)).code.toNat = code := by
  obtain ⟨rfl, positive⟩ := counts.opcodes.mem_toList.1 listed
  obtain ⟨found, _, rfl⟩ := List.mem_map.1 (List.count_pos_iff.1 positive)
  rw [UInt8.ofNat_toNat, Opcode.ofCode_code]

/-- The rows of the histogram say how often each opcode was executed. -/
theorem Counts.mem_histogram :
    (opcode, count) ∈ profile.histogram ↔ count = opcodes.count opcode ∧ 0 < count := by
  rw [histogram, List.mem_mergeSort, List.mem_map]
  constructor
  · rintro ⟨⟨code, count⟩, listed, ⟨⟩⟩
    rw [← count_codes, counts.code_ofCode listed]
    obtain ⟨rfl, positive⟩ := counts.opcodes.mem_toList.1 listed
    exact ⟨rfl, positive⟩
  · rintro ⟨rfl, positive⟩
    rw [← count_codes] at positive ⊢
    refine ⟨(opcode.code.toNat, _), counts.opcodes.mem_toList.2 ⟨rfl, positive⟩, ?_⟩
    simp only [UInt8.ofNat_toNat, Opcode.ofCode_code, id]

theorem Counts.nodup_histogram : (profile.histogram.map Prod.fst).Nodup := by
  rw [histogram, ((List.mergeSort_perm _ _).map Prod.fst).nodup_iff, List.map_map]
  refine List.pairwise_map.2 (TreeMap.distinct_keys_toList.imp_of_mem ?_)
  intro first second listed listed' different same
  have code : first.1 = second.1 := by
    rw [← counts.code_ofCode listed, ← counts.code_ofCode listed']
    exact congrArg (fun opcode => opcode.code.toNat) same
  exact different (by simp [code])

end

theorem histogram_ordered (profile : Profile) : profile.histogram.Pairwise fun first second =>
    second.2 < first.2 ∨ first.2 = second.2 ∧ first.1.code ≤ second.1.code := by
  refine (List.pairwise_mergeSort ?_ ?_ _).imp ?_
  · intro first second third
    simp only [Bool.or_eq_true, Bool.and_eq_true, decide_eq_true_eq, UInt8.le_iff_toNat_le]
    omega
  · intro first second
    simp only [Bool.or_eq_true, Bool.and_eq_true, decide_eq_true_eq, UInt8.le_iff_toNat_le]
    omega
  · intro first second before
    simpa only [Bool.or_eq_true, Bool.and_eq_true, decide_eq_true_eq] using before

/-- Where the calls among executed instructions led. -/
def entries (trace : List (Opcode × Nat)) : List Int :=
  (trace.filter fun event => event.1 = .call).map fun event => event.2

/-- A profile accounts for instructions, each with the position at which it left the machine. -/
structure Accounts (profile : Profile) (threshold : Nat) (trace : List (Opcode × Nat)) : Prop where
  instructions : profile.instructions = trace.length
  invocations : ∀ entry, profile.invocations entry = (entries trace).count entry
  calls : profile.opcodes[Opcode.call.code.toNat]?.getD 0 = profile.totalCalls
  hot : ∀ entry, entry ∈ profile.hotEntries ↔
    0 < profile.invocations entry ∧ threshold ≤ profile.invocations entry
  ascending : profile.hotEntries.Pairwise (· < ·)
  hotFunctions : profile.hotEntries.length = profile.hot
  rows : ∀ opcode count, (opcode, count) ∈ profile.histogram ↔
    count = (trace.map Prod.fst).count opcode ∧ 0 < count
  once : (profile.histogram.map Prod.fst).Nodup
  ordered : profile.histogram.Pairwise fun first second =>
    second.2 < first.2 ∨ first.2 = second.2 ∧ first.1.code ≤ second.1.code

theorem Counts.accounts {trace : List (Opcode × Nat)}
    (counts : profile.Counts (trace.map Prod.fst) (entries trace)) :
    profile.Accounts profile.threshold trace where
  instructions := by
    have total := counts.opcodes.total id fun _ => rfl
    rw [List.length_map, List.length_map] at total
    exact total
  invocations := fun entry => congrArg FunctionProfile.invocations (counts.function entry)
  calls := by
    have count : profile.opcodes[Opcode.call.code.toNat]?.getD 0 = _ := counts.opcodes.getD _
    rw [count, count_codes, totalCalls, counts.calls.total _ fun _ => rfl, entries, List.length_map,
      ← List.countP_eq_length_filter, List.count_eq_countP, List.countP_map]
    rfl
  hot := fun entry => by
    rw [mem_hotEntries counts.calls, Profile.invocations, counts.function]
    exact decide_eq_true_iff
  ascending := profile.hotEntries_ascending
  hotFunctions := counts.hot.symm
  rows := fun _ _ => counts.mem_histogram
  once := counts.nodup_histogram
  ordered := profile.histogram_ordered

end Profile

/-! ### Runs -/

namespace Machine

variable {machine after result : Machine} {instr : Instruction} {position threshold : Nat}
  {events : List (Opcode × Nat)}

/-- The instruction that a step executes, unless it fails, and the position that comes next. -/
def executed (machine : Machine) : List (Opcode × Nat) :=
  if machine.halted then []
  else
    match machine.program[machine.position]?, machine.step with
    | some instr, (.ok (), after) => [(instr.opcode, after.position)]
    | _, _ => []

/-- What a number of steps execute, the latest first. -/
def trace (machine : Machine) : Nat → List (Opcode × Nat)
  | 0 => []
  | count + 1 => (machine.afterSteps count).executed ++ machine.trace count

theorem Does.profile (does : machine.Does instr result position) : result.profile =
    if instr.opcode = .call then machine.profile.map fun profile => profile.recordCall position
    else machine.profile := by
  cases does with
  | enter calls => rw [if_pos calls]
  | idle same | fall same => rcases same with same | same <;> rw [if_neg (by simp [same])]
  | openRecord same =>
    rw [if_neg (by simp [same])]
    rfl
  | halt same | make same | pass same | leave same | passHost same | callHost same
  | askHost same => rw [if_neg (by simp [same])]
  | jump jumps =>
    rw [if_neg]
    intro same
    rw [same] at jumps
    cases jumps
  | write writes =>
    rw [if_neg]
    intro calls
    cases writes with
    | literal same | copy same | fetch same | place same => cases same.symm.trans calls
    | operate pure =>
      rw [calls] at pure
      cases pure

theorem Leaves.profile (leaves : machine.Leaves instr after) : after.profile = machine.profile := by
  cases leaves <;> rfl

/-- A machine that has executed what its profile counts. -/
def Counted (threshold : Nat) (machine : Machine) (events : List (Opcode × Nat)) : Prop :=
  machine.steps = events.length ∧ ∃ profile, machine.profile = some profile ∧
    profile.threshold = threshold ∧ profile.Counts (events.map Prod.fst) (Profile.entries events)

theorem Counted.step (counted : Counted threshold machine events) :
    Counted threshold machine.step.2 (machine.executed ++ events) := by
  by_cases halted : machine.halted = true
  · rw [executed, if_pos halted, Machine.step, if_pos halted]
    exact counted
  rw [executed, if_neg halted]
  obtain ⟨steps, profile, watched, limit, counts⟩ := counted
  rcases stepped : machine.step with ⟨outcome, after⟩
  cases outcome with
  | ok =>
    rcases step_eq_ok stepped with ⟨_, halted'⟩ | ⟨beyond, rfl⟩ | ⟨instr, result, position, found, does, rfl⟩
    · exact absurd halted' halted
    · rw [beyond]
      exact ⟨steps, profile, watched, limit, counts⟩
    · rw [found]
      refine ⟨congrArg (· + 1) (does.steps.1.trans steps), ?_⟩
      have recorded := does.profile
      rw [watched] at recorded
      by_cases calls : instr.opcode = .call
      · rw [if_pos calls] at recorded
        refine ⟨_, congrArg (Option.map _) recorded, limit, ?_⟩
        simpa [Profile.entries, calls, advance] using (counts.recordCall position).recordOpcode instr.opcode
      · rw [if_neg calls] at recorded
        refine ⟨_, congrArg (Option.map _) recorded, limit, ?_⟩
        simpa [Profile.entries, calls] using counts.recordOpcode instr.opcode
  | error =>
    obtain ⟨instr, found, leaves⟩ := step_eq_error stepped
    rw [found]
    exact ⟨leaves.steps.trans steps, profile, leaves.profile.trans watched, limit, counts⟩

theorem Counted.afterSteps (counted : Counted threshold machine []) (count : Nat) :
    Counted threshold (machine.afterSteps count) (machine.trace count) := by
  induction count with
  | zero => exact counted
  | succ count ih =>
    rw [afterSteps_succ]
    exact ih.step

/-! ### Runs without a profile -/

def unwatched (machine : Machine) : Machine :=
  { machine with profile := none }

theorem step_unwatched (machine : Machine) :
    machine.unwatched.step = (machine.step.1, machine.step.2.unwatched) := by
  have same : machine.step.2.limit = machine.limit :=
    step_keeps (fun after => after.limit = machine.limit) rfl rfl (fun _ does => does.steps.2)
      fun _ leaves => by cases leaves <;> rfl
  have plain : machine.step.2.guise machine.limit false = machine.step.2.unwatched := by
    rw [← same]
    rfl
  rw [← plain]
  exact machine.step_guise false fun _ _ => .inl rfl

theorem afterSteps_unwatched (machine : Machine) (count : Nat) :
    machine.unwatched.afterSteps count = (machine.afterSteps count).unwatched := by
  induction count with
  | zero => rfl
  | succ count ih => rw [afterSteps_succ, afterSteps_succ, ih, step_unwatched]

theorem run_unwatched (machine : Machine) (patience : Nat) :
    machine.unwatched.run patience = ((machine.run patience).1, (machine.run patience).2.unwatched) := by
  induction patience generalizing machine with
  | zero => rfl
  | succ patience ih =>
    rw [run, run, step_unwatched]
    by_cases halted : machine.halted = true
    · rw [if_pos halted, if_pos (show machine.unwatched.halted = true from halted)]
    · rw [if_neg halted, if_neg (show ¬ machine.unwatched.halted = true from halted)]
      rcases machine.step with ⟨outcome, after⟩
      cases outcome with
      | ok => exact ih after
      | error => rfl

/-- A machine with a profile goes through the same states as one without, with the same output and the same end,
and at every moment, also after failures, its profile accounts for what was executed. -/
theorem profile_accounts_for_run (program : Code) (options : Options) (threshold count : Nat) :
    let plain := ofProgram program { options with profiled := false }
    let watched := { plain with profile := some (.ofThreshold threshold) }
    plain.run count = ((watched.run count).1, (watched.run count).2.unwatched) ∧
      plain.afterSteps count = (watched.afterSteps count).unwatched ∧
      (plain.afterSteps count).step.1 = (watched.afterSteps count).step.1 ∧
      (watched.afterSteps count).steps = (watched.trace count).length ∧
      ∃ profile, (watched.afterSteps count).profile = some profile ∧
        profile.Accounts threshold (watched.trace count) := by
  intro plain watched
  have same : plain.afterSteps count = (watched.afterSteps count).unwatched :=
    watched.afterSteps_unwatched count
  have start : Counted threshold watched [] :=
    ⟨rfl, _, rfl, rfl, fun _ => rfl, fun _ => rfl, rfl⟩
  obtain ⟨steps, profile, kept, rfl, counts⟩ := start.afterSteps count
  refine ⟨watched.run_unwatched count, same, ?_, steps, profile, kept, counts.accounts⟩
  rw [same, step_unwatched]

end Machine

end Quadruple
