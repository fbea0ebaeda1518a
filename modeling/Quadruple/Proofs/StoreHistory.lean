import Quadruple.Image.Store
import Quadruple.Proofs.Reencoding

/-!
Histories of a store. Whatever was asked of a store that was empty at first, the requests and their
answers say what it holds: the images that were put and not deleted since, and for each key the image
that was remembered last, unless that image was deleted since.
-/

namespace Quadruple.Image

/-- The images that can be read again. -/
@[mk_iff]
structure Loadable (image : Image) : Prop where
  current : image.version = currentVersion
  valid : image.validate = .ok ()
  bounded : image.Bounded

instance (image : Image) : Decidable image.Loadable :=
  decidable_of_iff _ (loadable_iff image).symm

/-- The content has the hash, and it is read as an image that has it as its encoding. -/
structure Stored.Sound (stored : Stored) : Prop where
  hash : Hash.ofContent stored.content = stored.hash
  reads : ∃ image, decode stored.content = .ok image ∧ image.encode = .ok stored.content

namespace Store

variable {store after : Store} {hash : Hash} {key : String} {now : Nat} {image : Image}

/-! ### What is stored -/

theorem has_iff : store.has hash = true ↔ hash ∈ store.images.map Stored.hash := by
  unfold has find?
  rw [List.find?_isSome, List.mem_map]
  simp only [decide_eq_true_eq]

/-- What the two tables of a store promise: no hash and no key stands twice, and a key leads to an
image that is stored. -/
structure Constrained (store : Store) : Prop where
  hashes : (store.images.map Stored.hash).Nodup
  keys : (store.cache.map Prod.fst).Nodup
  references : ∀ entry ∈ store.cache, store.has entry.2 = true

theorem constrained_empty : Constrained {} where
  hashes := List.nodup_nil
  keys := List.nodup_nil
  references := fun _ listed => absurd listed List.not_mem_nil

theorem find?_of_has (has : store.has hash = true) :
    ∃ stored ∈ store.images, stored.hash = hash ∧ store.find? hash = some stored := by
  obtain ⟨stored, found⟩ := Option.isSome_iff_exists.1 has
  have same := List.find?_some found
  exact ⟨stored, List.mem_of_find?_eq_some found, of_decide_eq_true same, found⟩

theorem get_of_sound (sound : ∀ stored ∈ store.images, stored.Sound)
    (has : store.has hash = true) : ∃ image, store.get hash = .ok image ∧ image.hash = .ok hash := by
  obtain ⟨stored, listed, same, found⟩ := find?_of_has has
  obtain ⟨hashed, image, decoded, encoded⟩ := sound stored listed
  rw [same] at hashed
  refine ⟨image, ?_, ?_⟩
  · unfold get
    rw [found]
    simp only
    rw [if_pos hashed, decoded]
    rfl
  · unfold Image.hash
    rw [encoded, ← hashed]
    rfl

theorem get_of_not_has (absent : ¬ store.has hash = true) :
    store.get hash = .error (.notFound hash) := by
  unfold get
  rw [Option.not_isSome_iff_eq_none.1 absent]

theorem lookup_eq_some (keys : (store.cache.map Prod.fst).Nodup)
    (entry : (key, hash) ∈ store.cache) : store.cache.lookup key = some hash := by
  generalize store.cache = cache at keys entry
  induction cache with
  | nil => cases entry
  | cons first rest ih =>
    obtain ⟨unlike, keys⟩ := List.nodup_cons.1 keys
    rcases List.mem_cons.1 entry with rfl | entry
    · exact List.lookup_cons_self
    · -- The key stands once, so the entry is not hidden behind an earlier one.
      have other : key ≠ first.1 := by
        intro same
        apply unlike
        rw [← same]
        exact List.mem_map_of_mem (f := Prod.fst) entry
      rw [List.lookup_cons, beq_false_of_ne other]
      exact ih keys entry

theorem lookup_of_get (leads : store.cache.lookup key = some hash)
    (loads : store.get hash = .ok image) : store.lookup key = .ok (some image) := by
  unfold lookup
  rw [leads]
  simp only
  rw [loads]

theorem lookup_eq_none (none : ∀ hash, (key, hash) ∉ store.cache) :
    store.lookup key = .ok Option.none := by
  have nowhere : store.cache.lookup key = Option.none := by
    rw [List.lookup_eq_none_iff]
    intro entry listed
    apply bne_iff_ne.2
    intro same
    rw [same] at none
    exact none entry.2 listed
  unfold lookup
  rw [nowhere]

/-! ### What requests change -/

theorem put_eq_ok (put : store.put now image = .ok (hash, after)) :
    ∃ content, image.encode = .ok content ∧ hash = Hash.ofContent content ∧
      ((store.has hash = true ∧ after = store) ∨ (¬ store.has hash = true ∧ after = { store with
        images := ⟨hash, image.name, content, image.records.length, now⟩ :: store.images })) := by
  obtain ⟨content, encoded, rest⟩ := bind_eq_ok.1 put
  refine ⟨content, encoded, ?_⟩
  simp only at rest
  split at rest
  · rename_i has
    cases rest
    exact ⟨rfl, .inl ⟨has, rfl⟩⟩
  · rename_i absent
    cases rest
    exact ⟨rfl, .inr ⟨absent, rfl⟩⟩

theorem exists_put (hashed : image.hash = .ok hash) :
    ∃ after, store.put now image = .ok (hash, after) := by
  obtain ⟨content, encoded, rfl⟩ := map_eq_ok.1 hashed
  unfold put
  rw [encoded]
  by_cases has : store.has (Hash.ofContent content) = true
  · exact ⟨store, if_pos has⟩
  · exact ⟨_, if_neg has⟩

theorem delete_eq_ok (delete : store.delete hash = .ok after) : store.has hash = true ∧
    after = ⟨store.images.filter (·.hash ≠ hash), store.cache.filter (·.2 ≠ hash)⟩ := by
  unfold Store.delete at delete
  split at delete
  · rename_i has
    cases delete
    exact ⟨has, rfl⟩
  · cases delete

theorem remember_eq_ok (remember : store.remember key hash = .ok after) : store.has hash = true ∧
    after = { store with cache := (key, hash) :: store.cache.filter (·.1 ≠ key) } := by
  unfold Store.remember at remember
  split at remember
  · rename_i has
    cases remember
    exact ⟨has, rfl⟩
  · cases remember

theorem has_put (put : store.put now image = .ok (hash, after)) (other : Hash) :
    after.has other = true ↔ other = hash ∨ store.has other = true := by
  obtain ⟨content, _, _, ⟨has, rfl⟩ | ⟨_, rfl⟩⟩ := put_eq_ok put
  · constructor
    · exact Or.inr
    · intro either
      rcases either with rfl | had
      · exact has
      · exact had
  · rw [has_iff, has_iff, List.map_cons, List.mem_cons]

theorem has_delete (delete : store.delete hash = .ok after) (other : Hash) :
    after.has other = true ↔ store.has other = true ∧ other ≠ hash := by
  obtain ⟨_, rfl⟩ := delete_eq_ok delete
  rw [has_iff, has_iff]
  simp only [List.mem_map, List.mem_filter, decide_eq_true_eq]
  constructor
  · rintro ⟨stored, ⟨listed, unlike⟩, rfl⟩
    exact ⟨⟨stored, listed, rfl⟩, unlike⟩
  · rintro ⟨⟨stored, listed, rfl⟩, unlike⟩
    exact ⟨stored, ⟨listed, unlike⟩, rfl⟩

section

variable (constrained : store.Constrained)
include constrained

theorem constrained_put (put : store.put now image = .ok (hash, after)) : after.Constrained := by
  have kept := has_put put
  obtain ⟨content, _, _, ⟨_, rfl⟩ | ⟨absent, rfl⟩⟩ := put_eq_ok put
  · exact constrained
  · refine ⟨?_, constrained.keys, ?_⟩
    · exact List.nodup_cons.2 ⟨fun listed => absent (has_iff.2 listed), constrained.hashes⟩
    · intro entry listed
      exact (kept entry.2).2 (.inr (constrained.references entry listed))

theorem constrained_delete (delete : store.delete hash = .ok after) : after.Constrained := by
  have kept := has_delete delete
  obtain ⟨_, rfl⟩ := delete_eq_ok delete
  refine ⟨constrained.hashes.sublist (List.filter_sublist.map _),
    constrained.keys.sublist (List.filter_sublist.map _), ?_⟩
  intro entry listed
  obtain ⟨listed, unlike⟩ := List.mem_filter.1 listed
  exact (kept entry.2).2 ⟨constrained.references entry listed, of_decide_eq_true unlike⟩

theorem constrained_remember
    (remember : store.remember key hash = .ok after) : after.Constrained := by
  obtain ⟨has, rfl⟩ := remember_eq_ok remember
  refine ⟨constrained.hashes, ?_, ?_⟩
  · refine List.nodup_cons.2 ⟨?_, constrained.keys.sublist (List.filter_sublist.map _)⟩
    intro listed
    obtain ⟨entry, among, same⟩ := List.mem_map.1 listed
    exact of_decide_eq_true (List.mem_filter.1 among).2 same
  · intro entry listed
    rcases List.mem_cons.1 listed with rfl | listed
    · exact has
    · exact constrained.references entry (List.mem_filter.1 listed).1

end

/-! ### Requests and their answers -/

inductive Request where
  | put (now : Nat) (image : Image)
  | get (hash : Hash)
  | has (hash : Hash)
  | delete (hash : Hash)
  | remember (key : String) (hash : Hash)
  | lookup (key : String)

inductive Answer where
  | kept (hash : Hash)
  | loaded (image : Image)
  | present (holds : Bool)
  | done
  | found (image? : Option Image)
  | unpackable (cause : Address.Unpackable)
  | refused (cause : Error)

def perform (store : Store) : Request → Answer × Store
  | .put now image =>
    match store.put now image with
    | .ok (hash, after) => (.kept hash, after)
    | .error cause => (.unpackable cause, store)
  | .get hash =>
    match store.get hash with
    | .ok image => (.loaded image, store)
    | .error cause => (.refused cause, store)
  | .has hash => (.present (store.has hash), store)
  | .delete hash =>
    match store.delete hash with
    | .ok after => (.done, after)
    | .error cause => (.refused cause, store)
  | .remember key hash =>
    match store.remember key hash with
    | .ok after => (.done, after)
    | .error cause => (.refused cause, store)
  | .lookup key =>
    match store.lookup key with
    | .ok image? => (.found image?, store)
    | .error cause => (.refused cause, store)

abbrev Log := List (Request × Answer)

/-- What comes of requests to an empty store, of which the latest is the first. -/
def history : List Request → Log × Store
  | [] => ([], {})
  | request :: earlier =>
    let (log, store) := history earlier
    let (answer, after) := store.perform request
    ((request, answer) :: log, after)

def Lasts (starts ends : Request × Answer → Prop) (log : Log) : Prop :=
  ∃ later entry earlier, log = later ++ entry :: earlier ∧ starts entry ∧
    ∀ other ∈ later, ¬ ends other

variable {starts ends : Request × Answer → Prop}

theorem not_lasts_nil : ¬ Lasts starts ends [] := by
  rintro ⟨later, entry, earlier, same, _⟩
  cases later with
  | nil | cons => cases same

theorem lasts_cons {entry : Request × Answer} {log : Log} :
    Lasts starts ends (entry :: log) ↔ starts entry ∨ (Lasts starts ends log ∧ ¬ ends entry) := by
  constructor
  · rintro ⟨later, start, earlier, same, started, unended⟩
    cases later with
    | nil =>
      cases same
      exact .inl started
    | cons first rest =>
      cases same
      obtain ⟨notFirst, notRest⟩ := List.forall_mem_cons.1 unended
      exact .inr ⟨⟨rest, start, earlier, rfl, started, notRest⟩, notFirst⟩
  · rintro (started | ⟨⟨later, start, earlier, rfl, started, unended⟩, unending⟩)
    · exact ⟨[], entry, log, rfl, started, fun _ listed => absurd listed List.not_mem_nil⟩
    · exact ⟨entry :: later, start, earlier, rfl, started,
        List.forall_mem_cons.2 ⟨unending, unended⟩⟩

def Kept (hash : Hash) : Log → Prop :=
  Lasts (fun entry => ∃ now image, entry = (.put now image, .kept hash))
    (fun entry => entry = (.delete hash, .done))

def Leads (key : String) (hash : Hash) : Log → Prop :=
  Lasts (fun entry => entry = (.remember key hash, .done))
    (fun entry => entry = (.delete hash, .done) ∨ ∃ other, entry = (.remember key other, .done))

/-- What a store answers after what a log says. -/
structure Reflects (store : Store) (log : Log) : Prop where
  puts : ∀ now image hash, image.hash = .ok hash → ∃ after, store.put now image = .ok (hash, after)
  has : ∀ hash, store.has hash = true ↔ Kept hash log
  loads : ∀ hash, Kept hash log → ∃ image, store.get hash = .ok image ∧ image.hash = .ok hash
  absent : ∀ hash, ¬ Kept hash log → store.get hash = .error (.notFound hash)
  hits : ∀ key hash, Leads key hash log →
    ∃ image, store.get hash = .ok image ∧ store.lookup key = .ok (some image)
  misses : ∀ key, (∀ hash, ¬ Leads key hash log) → store.lookup key = .ok none
  deletes : ∀ hash, (∃ after, store.delete hash = .ok after) ↔ Kept hash log
  remembers : ∀ key hash, (∃ after, store.remember key hash = .ok after) ↔ Kept hash log
  refused : ∀ request cause, (store.perform request).1 = .refused cause →
    (store.perform request).2 = store
  once : (store.images.map Stored.hash).Nodup
  listed : ∀ hash, hash ∈ store.images.map Stored.hash ↔ Kept hash log

/-! ### One request -/

def IsQuiet : Request × Answer → Prop
  | (.put _ _, .kept _) | (.delete _, .done) | (.remember _ _, .done) => False
  | _ => True

/-- What becomes of a store with a request. -/
inductive Step (store : Store) : Request → Answer → Store → Prop
  | put {now : Nat} {image : Image} {hash : Hash} {after : Store}
      (put : store.put now image = .ok (hash, after)) :
      Step store (.put now image) (.kept hash) after
  | delete {hash : Hash} {after : Store} (delete : store.delete hash = .ok after) :
      Step store (.delete hash) .done after
  | remember {key : String} {hash : Hash} {after : Store}
      (remember : store.remember key hash = .ok after) :
      Step store (.remember key hash) .done after
  | quiet {request : Request} {answer : Answer} (quiet : IsQuiet (request, answer)) :
      Step store request answer store

theorem step_perform (store : Store) (request : Request) :
    Step store request (store.perform request).1 (store.perform request).2 := by
  unfold perform
  cases request with
  | put now image =>
    simp only
    cases put : store.put now image with
    | ok result => exact .put put
    | error cause => exact .quiet trivial
  | get hash =>
    simp only
    cases store.get hash with
    | ok image | error cause => exact .quiet trivial
  | has hash => exact .quiet trivial
  | delete hash =>
    simp only
    cases delete : store.delete hash with
    | ok after => exact .delete delete
    | error cause => exact .quiet trivial
  | remember key hash =>
    simp only
    cases remember : store.remember key hash with
    | ok after => exact .remember remember
    | error cause => exact .quiet trivial
  | lookup key =>
    simp only
    cases store.lookup key with
    | ok image? | error cause => exact .quiet trivial

theorem perform_of_refused {request : Request} {cause : Error}
    (refused : (store.perform request).1 = .refused cause) : (store.perform request).2 = store := by
  have step := step_perform store request
  rw [refused] at step
  generalize (store.perform request).2 = after at step
  cases step with
  | quiet => rfl

section

variable {log : Log} {other : Hash} {entry : Request × Answer}

theorem kept_quiet (quiet : IsQuiet entry) : Kept hash (entry :: log) ↔ Kept hash log := by
  unfold Kept
  rw [lasts_cons]
  constructor
  · rintro (⟨now, image, rfl⟩ | ⟨lasts, _⟩)
    · exact quiet.elim
    · exact lasts
  · intro lasts
    refine .inr ⟨lasts, ?_⟩
    rintro rfl
    exact quiet

theorem leads_quiet (quiet : IsQuiet entry) : Leads key hash (entry :: log) ↔ Leads key hash log := by
  unfold Leads
  rw [lasts_cons]
  constructor
  · rintro (rfl | ⟨lasts, _⟩)
    · exact quiet.elim
    · exact lasts
  · intro lasts
    refine .inr ⟨lasts, ?_⟩
    rintro (rfl | ⟨_, rfl⟩) <;> exact quiet

theorem kept_put :
    Kept other ((.put now image, .kept hash) :: log) ↔ other = hash ∨ Kept other log := by
  simp [Kept, lasts_cons, eq_comm]

theorem leads_put : Leads key other ((.put now image, .kept hash) :: log) ↔ Leads key other log := by
  simp [Leads, lasts_cons]

theorem kept_delete : Kept other ((.delete hash, .done) :: log) ↔ Kept other log ∧ other ≠ hash := by
  simp [Kept, lasts_cons, eq_comm]

theorem leads_delete :
    Leads key other ((.delete hash, .done) :: log) ↔ Leads key other log ∧ other ≠ hash := by
  simp [Leads, lasts_cons, eq_comm]

theorem kept_remember : Kept other ((.remember key hash, .done) :: log) ↔ Kept other log := by
  simp [Kept, lasts_cons]

theorem leads_remember {name : String} : Leads name other ((.remember key hash, .done) :: log) ↔
    (name = key ∧ other = hash) ∨ (Leads name other log ∧ name ≠ key) := by
  simp [Leads, lasts_cons, eq_comm]

/-- The tables hold what the log says, and every content can be loaded. -/
structure Tracks (store : Store) (log : Log) : Prop where
  constrained : store.Constrained
  has : ∀ hash, store.has hash = true ↔ Kept hash log
  leads : ∀ key hash, (key, hash) ∈ store.cache ↔ Leads key hash log
  sound : ∀ stored ∈ store.images, stored.Sound

section

variable (tracks : store.Tracks log)
include tracks

theorem tracks_put (loadable : image.Loadable) (put : store.put now image = .ok (hash, after)) :
    after.Tracks ((.put now image, .kept hash) :: log) := by
  refine ⟨constrained_put tracks.constrained put, ?_, ?_, ?_⟩
  · intro other
    rw [has_put put, tracks.has, kept_put]
  · intro key other
    rw [leads_put, ← tracks.leads]
    obtain ⟨content, _, _, ⟨_, rfl⟩ | ⟨_, rfl⟩⟩ := put_eq_ok put <;> exact Iff.rfl
  · obtain ⟨content, encoded, same, ⟨_, rfl⟩ | ⟨_, rfl⟩⟩ := put_eq_ok put
    · exact tracks.sound
    · intro stored listed
      rcases List.mem_cons.1 listed with rfl | listed
      · exact ⟨same.symm,
          exists_decoded loadable.bounded loadable.current loadable.valid encoded⟩
      · exact tracks.sound stored listed

theorem tracks_delete (delete : store.delete hash = .ok after) :
    after.Tracks ((.delete hash, .done) :: log) := by
  refine ⟨constrained_delete tracks.constrained delete, ?_, ?_, ?_⟩
  · intro other
    rw [has_delete delete, tracks.has, kept_delete]
  · intro key other
    obtain ⟨_, rfl⟩ := delete_eq_ok delete
    rw [leads_delete, ← tracks.leads, List.mem_filter, decide_eq_true_eq]
  · obtain ⟨_, rfl⟩ := delete_eq_ok delete
    intro stored listed
    exact tracks.sound stored (List.mem_filter.1 listed).1

theorem tracks_remember (remember : store.remember key hash = .ok after) :
    after.Tracks ((.remember key hash, .done) :: log) := by
  refine ⟨constrained_remember tracks.constrained remember, ?_, ?_, ?_⟩
  · intro other
    obtain ⟨_, rfl⟩ := remember_eq_ok remember
    rw [kept_remember]
    exact tracks.has other
  · intro name other
    obtain ⟨_, rfl⟩ := remember_eq_ok remember
    rw [leads_remember, ← tracks.leads, List.mem_cons, List.mem_filter, decide_eq_true_eq,
      Prod.mk.injEq]
  · obtain ⟨_, rfl⟩ := remember_eq_ok remember
    exact tracks.sound

theorem Tracks.step {request : Request} {answer : Answer}
    (loadable : ∀ now image, request = .put now image → image.Loadable)
    (step : store.Step request answer after) : after.Tracks ((request, answer) :: log) := by
  cases step with
  | put put => exact tracks_put tracks (loadable _ _ rfl) put
  | delete delete => exact tracks_delete tracks delete
  | remember remember => exact tracks_remember tracks remember
  | quiet quiet =>
    refine ⟨tracks.constrained, ?_, ?_, tracks.sound⟩
    · intro hash
      rw [kept_quiet quiet]
      exact tracks.has hash
    · intro key hash
      rw [leads_quiet quiet]
      exact tracks.leads key hash

end

/-! ### Many requests -/

theorem tracks_nil : Tracks {} [] where
  constrained := constrained_empty
  has := fun _ => iff_of_false Bool.false_ne_true not_lasts_nil
  leads := fun _ _ => iff_of_false List.not_mem_nil not_lasts_nil
  sound := fun _ listed => absurd listed List.not_mem_nil

theorem tracks_history {requests : List Request}
    (loadable : ∀ now image, .put now image ∈ requests → image.Loadable) :
    (history requests).2.Tracks (history requests).1 := by
  induction requests with
  | nil => exact tracks_nil
  | cons request earlier ih =>
    have before := ih fun now image listed => loadable now image (List.mem_cons_of_mem _ listed)
    apply before.step
    · rintro now image rfl
      exact loadable now image List.mem_cons_self
    · exact step_perform (history earlier).2 request

theorem Tracks.reflects (tracks : store.Tracks log) : store.Reflects log where
  puts := fun _ _ _ => exists_put
  has := tracks.has
  loads := fun hash kept => get_of_sound tracks.sound ((tracks.has hash).2 kept)
  absent := fun hash unkept => get_of_not_has fun has => unkept ((tracks.has hash).1 has)
  hits := by
    intro key hash leads
    have entry := (tracks.leads key hash).2 leads
    obtain ⟨image, loads, _⟩ :=
      get_of_sound tracks.sound (tracks.constrained.references (key, hash) entry)
    exact ⟨image, loads, lookup_of_get (lookup_eq_some tracks.constrained.keys entry) loads⟩
  misses := by
    intro key nowhere
    apply lookup_eq_none
    intro hash entry
    exact nowhere hash ((tracks.leads key hash).1 entry)
  deletes := by
    intro hash
    rw [← tracks.has]
    constructor
    · rintro ⟨after, delete⟩
      exact (delete_eq_ok delete).1
    · intro has
      exact ⟨_, if_pos has⟩
  remembers := by
    intro key hash
    rw [← tracks.has]
    constructor
    · rintro ⟨after, remember⟩
      exact (remember_eq_ok remember).1
    · intro has
      exact ⟨_, if_pos has⟩
  refused := fun _ _ => perform_of_refused
  once := tracks.constrained.hashes
  listed := by
    intro hash
    rw [← has_iff]
    exact tracks.has hash

end

/-- Whatever was asked of a store that was empty at first, its answers follow from the log. -/
theorem reflects_history (requests : List Request)
    (loadable : ∀ now image, .put now image ∈ requests → image.Loadable) :
    (history requests).2.Reflects (history requests).1 :=
  (tracks_history loadable).reflects

def signedZeroHash : Hash :=
  Hash.ofContent (signedZero.encode.toOption.getD [])

/-- A key is made to lead to an image, which is then deleted and put again. -/
def revival : List Request :=
  [.put 4 signedZero, .delete signedZeroHash, .remember "key" signedZeroHash, .put 1 signedZero]

theorem revival_reflects : (history revival).2.Reflects (history revival).1 ∧
    (history revival).2.has signedZeroHash = true ∧
    ((history revival).2.lookup "key").toOption = some none := by
  have answers : (history revival).2.has signedZeroHash = true ∧
      ((history revival).2.lookup "key").toOption = some none := by decide +kernel
  refine ⟨?_, answers⟩
  apply reflects_history
  intro now image listed
  have same : image = signedZero := by
    simp only [revival, List.mem_cons, Request.put.injEq, reduceCtorEq, List.not_mem_nil, or_false,
      false_or] at listed
    rcases listed with ⟨_, same⟩ | ⟨_, same⟩
    · exact same
    · exact same
  rw [same]
  decide +kernel

end Store

end Quadruple.Image
