import Quadruple.Proofs.CacheKeys
import Quadruple.Proofs.StoreHistory

/-!
Builds that share a cache. Every image of the cache is what an earlier build compiled, under the key
of that build. Unless hashes collide, a build finds in the cache only what it would have compiled
itself, up to what the key does not cover and up to what storing does to an image.
-/

namespace Quadruple

variable {contents : List Bytes}

/-- No two of the contents have the same hash. -/
def Hash.Separates (contents : List Bytes) : Prop :=
  ∀ first ∈ contents, ∀ second ∈ contents, first ≠ second → ofContent first ≠ ofContent second

instance (contents : List Bytes) : Decidable (Hash.Separates contents) :=
  inferInstanceAs (Decidable (∀ first ∈ contents, ∀ second ∈ contents, _ → _))

theorem Hash.Separates.eq {first second : Bytes} (separates : Separates contents) (among : first ∈ contents)
    (among' : second ∈ contents) (same : ofContent first = ofContent second) : first = second := by
  by_contra unlike
  exact separates first among second among' unlike same

theorem Hash.Separates.of_forall_mem {others : List Bytes} (separates : Separates contents)
    (listed : ∀ content ∈ others, content ∈ contents) : Separates others := by
  intro first among second among'
  exact separates first (listed first among) second (listed second among')

/-- The images that are stored without a change. -/
@[mk_iff]
structure Image.Storable (image : Image) : Prop where
  fits : image.Fits
  valid : image.validate = .ok ()
  unsigned : ∀ number ∈ image.floats, number ≠ Number.negativeZero

instance (image : Image) : Decidable image.Storable :=
  decidable_of_iff _ (Image.storable_iff image).symm

namespace Build

open Image (Store)

variable {stats : Option Optimization.Stats}

/-! ### What is compiled -/

namespace Task

variable {task other : Task} {image : Image} {stats : Option Optimization.Stats}

def Encodes (task : Task) (content : Bytes) : Prop :=
  ∃ image stats, task.compile = .ok (image, stats) ∧ image.encode = .ok content

/-- What is hashed for the task: what its key covers, and the encoding of its image. -/
def hashed (task : Task) : List Bytes :=
  task.covered :: (task.compile.toOption.bind fun result => result.1.encode.toOption).toList

theorem covered_mem_hashed : task.covered ∈ task.hashed :=
  List.mem_cons_self

theorem Encodes.mem_hashed {content : Bytes} (encodes : task.Encodes content) :
    content ∈ task.hashed := by
  obtain ⟨image, stats, compiled, encoded⟩ := encodes
  apply List.mem_cons_of_mem
  rw [compiled]
  show content ∈ image.encode.toOption.toList
  rw [encoded]
  exact List.mem_singleton_self content

theorem version_of_compile (compiled : task.compile = .ok (image, stats)) :
    image.version = Image.currentVersion := by
  obtain ⟨transcript, _, rest⟩ := bind_eq_ok.1 compiled
  obtain ⟨code, _, rest⟩ := bind_eq_ok.1 rest
  split at rest
  · obtain ⟨⟨code, stats⟩, _, ⟨⟩⟩ := bind_eq_ok.1 rest
    rfl
  · cases rest
    rfl

theorem exists_content (compiled : task.compile = .ok (image, stats)) (storable : image.Storable) :
    ∃ content, image.encode = .ok content ∧ Image.decode content = .ok image := by
  obtain ⟨content, encoded, decoded⟩ :=
    Image.decode_encode storable.fits (version_of_compile compiled)
  rw [storable.valid, Image.reread_eq storable.unsigned] at decoded
  exact ⟨content, encoded, decoded⟩

/-- What a key covers decides what is compiled, but for the name that the path gives. -/
theorem compile_of_alike (alike : other.Alike task) (named : ∀ transcript,
      task.transcript = .ok transcript → other.programName transcript = task.programName transcript)
    {result : Image × Option Optimization.Stats} (compiled : other.compile = .ok result) :
    task.compile = .ok result := by
  have reads : other.transcript = task.transcript := by
    unfold transcript
    rw [alike.source]
  obtain ⟨transcript, read, compiled⟩ := bind_eq_ok.1 compiled
  obtain ⟨code, made, compiled⟩ := bind_eq_ok.1 compiled
  rw [mapError_eq_ok, reads] at read
  rw [mapError_eq_ok, alike.memory] at made
  refine bind_eq_ok.2 ⟨transcript, mapError_eq_ok.2 read, ?_⟩
  refine bind_eq_ok.2 ⟨code, mapError_eq_ok.2 made, ?_⟩
  rw [named transcript read, alike.optimize] at compiled
  simp only at compiled ⊢
  split
  · rename_i wanted
    rw [if_pos wanted] at compiled
    obtain ⟨optimized, done, compiled⟩ := bind_eq_ok.1 compiled
    rw [mapError_eq_ok, alike.optimizer] at done
    exact bind_eq_ok.2 ⟨optimized, mapError_eq_ok.2 done, compiled⟩
  · rename_i unwanted
    rw [if_neg unwanted] at compiled
    exact compiled

end Task

/-! ### One build -/

variable {task : Task} {now : Nat} {store kept : Store} {image : Image}

theorem keep_eq_ok {key : String} (keeps : keep store now key image = .ok kept) :
    ∃ hash stored, store.put now image = .ok (hash, stored) ∧
      stored.remember key hash = .ok kept := by
  obtain ⟨⟨hash, stored⟩, put, remembers⟩ := bind_eq_ok.1 keeps
  exact ⟨hash, stored, mapError_eq_ok.1 put, mapError_eq_ok.1 remembers⟩

theorem exists_kept {content : Bytes} (encoded : image.encode = .ok content) (store : Store)
    (now : Nat) (key : String) : ∃ kept, keep store now key image = .ok kept := by
  have hashed : image.hash = .ok (Hash.ofContent content) := map_eq_ok.2 ⟨content, encoded, rfl⟩
  obtain ⟨stored, put⟩ : ∃ stored, store.put now image = .ok (Hash.ofContent content, stored) :=
    Store.exists_put hashed
  have has : stored.has (Hash.ofContent content) = true := (Store.has_put put _).2 (.inl rfl)
  have remembers : stored.remember key (Hash.ofContent content) = .ok _ := if_pos has
  exact ⟨_, bind_eq_ok.2 ⟨_, mapError_eq_ok.2 put, mapError_eq_ok.2 remembers⟩⟩

theorem store_build (task : Task) (now : Nat) (store : Store) :
    (build task now (some store)).store = some store ∨ ∃ image stats kept,
      task.compile = .ok (image, stats) ∧ keep store now task.key image = .ok kept ∧
        (build task now (some store)).store = some kept := by
  unfold build
  simp only
  cases store.lookup task.key with
  | error cause => exact .inl rfl
  | ok found =>
    cases found with
    | some image => exact .inl rfl
    | none =>
      cases compiled : task.compile with
      | error failure => exact .inl rfl
      | ok result =>
        obtain ⟨image, stats⟩ := result
        simp only
        cases keeps : keep store now task.key image with
        | error failure => exact .inl rfl
        | ok kept => exact .inr ⟨image, stats, kept, rfl, keeps, rfl⟩

theorem result_build_none (task : Task) (now : Nat) :
    (build task now none).result = task.compile.map Prod.fst := by
  unfold build
  cases task.compile with
  | error failure | ok result => rfl

theorem build_of_hit (found : store.lookup task.key = .ok (some image)) :
    build task now (some store) = { result := .ok image, cached := true, store := some store } := by
  unfold build
  simp only
  rw [found]

/-- A build that finds nothing gives what it compiles, if that can be stored. -/
theorem result_of_miss (missed : store.lookup task.key = .ok none)
    (storable : ∀ image stats, task.compile = .ok (image, stats) → image.Storable) :
    (build task now (some store)).result = task.compile.map Prod.fst := by
  unfold build
  simp only
  rw [missed]
  cases compiled : task.compile with
  | error failure => rfl
  | ok result =>
    obtain ⟨image, stats⟩ := result
    obtain ⟨content, encoded, _⟩ := Task.exists_content compiled (storable image stats compiled)
    obtain ⟨kept, keeps⟩ := exists_kept encoded store now task.key
    simp only
    rw [keeps]
    rfl

/-! ### Many builds -/

structure Call where
  task : Task
  now : Nat
  useCache : Bool

/-- The cache after calls, of which the latest is the first. It is empty before them. -/
def storeAfter : List Call → Store
  | [] => {}
  | call :: earlier =>
    let store := storeAfter earlier
    if call.useCache then (build call.task call.now (some store)).store.getD store else store

/-- What a store holds comes of calls: each content is the encoding of what one of them compiled, and
each key leads to the hash of what a call with this key compiled. -/
structure StemsFrom (store : Store) (calls : List Call) : Prop where
  constrained : store.Constrained
  keyed : ∀ entry ∈ store.cache, ∃ call ∈ calls, call.task.key = entry.1 ∧
    ∃ content, call.task.Encodes content ∧ entry.2 = Hash.ofContent content
  stored : ∀ stored ∈ store.images, Hash.ofContent stored.content = stored.hash ∧
    ∃ call ∈ calls, call.task.Encodes stored.content

variable {calls : List Call} {call : Call}

theorem StemsFrom.later (stems : StemsFrom store calls) : StemsFrom store (call :: calls) := by
  refine ⟨stems.constrained, ?_, ?_⟩
  · intro entry listed
    obtain ⟨origin, among, rest⟩ := stems.keyed entry listed
    exact ⟨origin, List.mem_cons_of_mem call among, rest⟩
  · intro stored listed
    obtain ⟨hashed, origin, among, encodes⟩ := stems.stored stored listed
    exact ⟨hashed, origin, List.mem_cons_of_mem call among, encodes⟩

theorem StemsFrom.put {hash : Hash} {after : Store} (stems : StemsFrom store (call :: calls))
    (compiled : call.task.compile = .ok (image, stats)) (put : store.put now image = .ok (hash, after)) :
    StemsFrom after (call :: calls) ∧ ∃ content, call.task.Encodes content ∧
      hash = Hash.ofContent content := by
  have constrained := Store.constrained_put stems.constrained put
  obtain ⟨content, encoded, same, ⟨_, rfl⟩ | ⟨_, rfl⟩⟩ := Store.put_eq_ok put
  · exact ⟨stems, content, ⟨image, stats, compiled, encoded⟩, same⟩
  · have encodes : call.task.Encodes content := ⟨image, stats, compiled, encoded⟩
    refine ⟨⟨constrained, stems.keyed, ?_⟩, content, encodes, same⟩
    intro stored listed
    rcases List.mem_cons.1 listed with rfl | listed
    · exact ⟨same.symm, call, List.mem_cons_self, encodes⟩
    · exact stems.stored stored listed

theorem StemsFrom.keep (stems : StemsFrom store (call :: calls))
    (compiled : call.task.compile = .ok (image, stats))
    (keeps : keep store now call.task.key image = .ok kept) : StemsFrom kept (call :: calls) := by
  obtain ⟨hash, stored, put, remembers⟩ := keep_eq_ok keeps
  obtain ⟨stems, content, encodes, same⟩ := stems.put compiled put
  have constrained := Store.constrained_remember stems.constrained remembers
  obtain ⟨_, rfl⟩ := Store.remember_eq_ok remembers
  refine ⟨constrained, ?_, stems.stored⟩
  intro entry listed
  rcases List.mem_cons.1 listed with rfl | listed
  · exact ⟨call, List.mem_cons_self, rfl, content, encodes, same⟩
  · exact stems.keyed entry (List.mem_filter.1 listed).1

theorem stemsFrom_storeAfter (calls : List Call) : StemsFrom (storeAfter calls) calls := by
  induction calls with
  | nil =>
    exact ⟨Store.constrained_empty, fun _ listed => absurd listed List.not_mem_nil,
      fun _ listed => absurd listed List.not_mem_nil⟩
  | cons call earlier ih =>
    unfold storeAfter
    simp only
    split
    · rcases store_build call.task call.now (storeAfter earlier) with
        same | ⟨image, stats, kept, compiled, keeps, same⟩
      · rw [same]
        exact ih.later
      · rw [same]
        exact ih.later.keep compiled keeps
    · exact ih.later

section

variable {hash : Hash}

/-- Where hashes do not collide, a key leads to what a call with this key compiled. -/
theorem StemsFrom.get (stems : StemsFrom store calls) (entry : (task.key, hash) ∈ store.cache)
    (separates : Hash.Separates ((task :: calls.map Call.task).flatMap Task.hashed)) :
    ∃ call ∈ calls, call.task.Alike task ∧ ∃ content, call.task.Encodes content ∧
      store.get hash = (Image.decode content).mapError .invalid := by
  obtain ⟨call, among, key, content, encodes, rfl⟩ := stems.keyed _ entry
  have held : ∀ {call : Call} {content : Bytes}, call ∈ calls → content ∈ call.task.hashed →
      content ∈ (task :: calls.map Call.task).flatMap Task.hashed := by
    intro call content among listed
    have present := List.mem_cons_of_mem task (List.mem_map_of_mem (f := Call.task) among)
    exact List.mem_flatMap.2 ⟨call.task, present, listed⟩
  -- The key of the call is that of the task: both hash the same bytes.
  have covered : call.task.covered = task.covered := by
    apply separates.eq (held among Task.covered_mem_hashed) _ (Hash.text_injective key)
    exact List.mem_flatMap.2 ⟨task, List.mem_cons_self, Task.covered_mem_hashed⟩
  obtain ⟨stored, listed, same, found⟩ :=
    Store.find?_of_has (stems.constrained.references _ entry)
  obtain ⟨hashed, origin, present, encoded⟩ := stems.stored stored listed
  -- Another call may have put the image there first, but with the same content.
  have content_eq : stored.content = content :=
    separates.eq (held present encoded.mem_hashed) (held among encodes.mem_hashed)
      (hashed.trans same)
  refine ⟨call, among, Task.alike_of_covered covered, content, encodes, ?_⟩
  unfold Store.get
  rw [found]
  simp only
  rw [if_pos (hashed.trans same), content_eq]

/-- The cache of earlier calls holds nothing for a task, or what the task compiles. -/
theorem lookup_storeAfter (task : Task) (earlier : List Call)
    (separates : Hash.Separates ((task :: earlier.map Call.task).flatMap Task.hashed))
    (named : ∀ call ∈ earlier, call.task.Alike task → ∀ transcript,
      task.transcript = .ok transcript →
        call.task.programName transcript = task.programName transcript)
    (storable : ∀ image stats, task.compile = .ok (image, stats) → image.Storable) :
    (storeAfter earlier).lookup task.key = .ok none ∨ ∃ image stats,
      task.compile = .ok (image, stats) ∧
        (storeAfter earlier).lookup task.key = .ok (some image) := by
  have stems := stemsFrom_storeAfter earlier
  by_cases leads : ∃ hash, (task.key, hash) ∈ (storeAfter earlier).cache
  · obtain ⟨hash, entry⟩ := leads
    obtain ⟨call, among, alike, content, ⟨image, stats, compiled, encoded⟩, loads⟩ :=
      stems.get entry separates
    have own := Task.compile_of_alike alike (named call among alike) compiled
    obtain ⟨bytes, written, decoded⟩ := Task.exists_content own (storable image stats own)
    rw [encoded] at written
    cases written
    rw [decoded] at loads
    exact .inr ⟨image, stats, own,
      Store.lookup_of_get (Store.lookup_eq_some stems.constrained.keys entry) loads⟩
  · exact .inl (Store.lookup_eq_none fun hash entry => leads ⟨hash, entry⟩)

end

/-- After any calls that share a cache, a build with the cache gives what it gives without one, if
no hashes collide, if what was built from the same transcript has the same name, and if the image is
one that storing does not change. -/
theorem cached_build_eq (task : Task) (now : Nat) (earlier : List Call)
    (separates : Hash.Separates ((task :: earlier.map Call.task).flatMap Task.hashed))
    (named : ∀ call ∈ earlier, call.task.Alike task → ∀ transcript,
      task.transcript = .ok transcript →
        call.task.programName transcript = task.programName transcript)
    (storable : ∀ image stats, task.compile = .ok (image, stats) → image.Storable) :
    (build task now (some (storeAfter earlier))).result = (build task now none).result := by
  rw [result_build_none]
  rcases lookup_storeAfter task earlier separates named storable with
    missed | ⟨image, stats, compiled, found⟩
  · exact result_of_miss missed storable
  · rw [build_of_hit found, compiled]
    rfl

/-! ### Tasks that share a key -/

/-- Where nothing was cached before, a task finds the image of an earlier task with its key. -/
theorem lookup_of_alike {first second : Task} (alike : first.Alike second) (now : Nat)
    (compiled : first.compile = .ok (image, stats)) (storable : image.Storable) :
    (storeAfter [⟨first, now, true⟩]).lookup second.key = .ok (some image) := by
  obtain ⟨content, encoded, decoded⟩ := Task.exists_content compiled storable
  let stored : Image.Stored :=
    ⟨Hash.ofContent content, image.name, content, image.records.length, now⟩
  have put : ({} : Store).put now image = .ok (stored.hash, { images := [stored] }) := by
    unfold Store.put
    rw [encoded]
    rfl
  have has : ({ images := [stored] } : Store).has stored.hash = true :=
    Store.has_iff.2 List.mem_cons_self
  have keeps : keep {} now first.key image =
      .ok { images := [stored], cache := [(first.key, stored.hash)] } :=
    bind_eq_ok.2 ⟨_, mapError_eq_ok.2 put, mapError_eq_ok.2 (if_pos has)⟩
  have after : storeAfter [⟨first, now, true⟩] =
      { images := [stored], cache := [(first.key, stored.hash)] } := by
    unfold storeAfter build
    simp only [storeAfter, show ({} : Store).lookup first.key = .ok none from rfl, compiled, keeps,
      if_true, Option.getD_some]
  rw [after, ← alike.key_eq]
  apply Store.lookup_of_get List.lookup_cons_self
  have found : (Store.mk [stored] [(first.key, stored.hash)]).find? stored.hash = some stored :=
    List.find?_cons_of_pos (decide_eq_true rfl)
  unfold Store.get
  rw [found]
  simp only
  rw [if_pos rfl, decoded]
  rfl

/-- A program that does nothing, in a file of its own. A transcript may name it in its first line. -/
def idle (path naming : String) : Task where
  manifest := {}
  path
  source := Bytes.ofText (naming ++ "event=[\x7bkind=\"init\"\x7d]")
  optimize := true

theorem idle_alike (path path' naming : String) : (idle path naming).Alike (idle path' naming) :=
  ⟨rfl, rfl, rfl, rfl⟩

/-- The same program from another file is found in the cache. -/
theorem idle_cached_build :
    let earlier : List Call := [⟨idle "a.toml" "name=\"p\"\n", 1, true⟩]
    let task := idle "b.toml" "name=\"p\"\n"
    (build task 2 (some (storeAfter earlier))).cached = true ∧
      (build task 2 (some (storeAfter earlier))).result = (build task 2 none).result := by
  intro earlier task
  have named : task.transcript.toOption.all fun transcript => transcript.name ≠ "" := by
    decide +kernel
  obtain ⟨⟨image, stats⟩, compiled, storable⟩ : ∃ made, task.compile = .ok made ∧ made.1.Storable :=
    exists_ok_of_any (by decide +kernel)
  have separates : Hash.Separates task.hashed := by decide +kernel
  constructor
  · obtain ⟨⟨other, stats⟩, compiled, storable⟩ : ∃ made,
        (idle "a.toml" "name=\"p\"\n").compile = .ok made ∧ made.1.Storable :=
      exists_ok_of_any (by decide +kernel)
    rw [build_of_hit (lookup_of_alike (idle_alike _ _ _) 1 compiled storable)]
  · apply cached_build_eq task 2 earlier (separates.of_forall_mem (by decide +kernel))
    · intro call listed _ transcript read
      rw [read] at named
      unfold Task.programName
      rw [if_neg (of_decide_eq_true named), if_neg (of_decide_eq_true named)]
    · intro other stats made
      rw [compiled] at made
      cases made
      exact storable

/-- A file that does not name its program gets the program of another file, with its name. -/
theorem idle_misnamed : ∃ image other,
    (build (idle "b.toml" "") 2 (some (storeAfter [⟨idle "a.toml" "", 1, true⟩]))).result =
      .ok image ∧ (build (idle "b.toml" "") 2 none).result = .ok other ∧
    image.name = "a" ∧ other.name = "b" := by
  obtain ⟨⟨image, stats⟩, compiled, storable, name⟩ : ∃ made,
      (idle "a.toml" "").compile = .ok made ∧ made.1.Storable ∧ made.1.name = "a" :=
    exists_ok_of_any (by decide +kernel)
  obtain ⟨⟨other, stats'⟩, compiled', name'⟩ : ∃ made,
      (idle "b.toml" "").compile = .ok made ∧ made.1.name = "b" :=
    exists_ok_of_any (by decide +kernel)
  refine ⟨image, other, ?_, ?_, name, name'⟩
  · rw [build_of_hit (lookup_of_alike (idle_alike _ _ _) 1 compiled storable)]
  · rw [result_build_none, compiled']
    rfl

end Build

end Quadruple
