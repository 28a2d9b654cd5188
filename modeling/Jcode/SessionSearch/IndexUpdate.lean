import Jcode.SessionSearch.IndexFile

/-!
# SessionSearch — the update of the index

`build_or_update` of `tool/session_search_index.rs`.  The index of a path is kept in memory and in a
file.  A call takes the index in memory when it is of the same files; otherwise it takes the entries
of the file whose identity is unchanged, makes the others anew, and writes the file.

* `mergeEntries_eq`: what is reused and what is made anew come together in the order of the files.
* `buildOrUpdate_entries`: the index has the entry of each file, when what was kept is faithful.
* `Sound.step`: it stays so.
* `index_fresh`: over every run the index is what it would be without anything kept.
-/

namespace Jcode.SessionSearch
open Rust

def INDEX_THREADS : ℕ := 8

/-- What the surroundings do in a call. -/
structure Surroundings where
  /-- The lock of the cache is not poisoned, where the cache is read. -/
  cacheRead : Bool
  /-- `std::fs::read`. -/
  fileRead : Bool
  /-- `save`. -/
  fileWritten : Bool
  /-- The lock of the cache is not poisoned, where the cache is written. -/
  cacheWritten : Bool

/-- A call of `build_or_update`. -/
structure Call where
  specs : List IndexFileSpec
  readText : ℕ → Option String
  surroundings : Surroundings

/-- What is kept of the index of a path. -/
structure Kept where
  cache : Option TokenHashIndex
  file : Option (List UInt8)

def IndexEntry.spec (entry : IndexEntry) : IndexFileSpec := ⟨entry.key, entry.mtimeMs, entry.size⟩

def TokenHashIndex.matchesSpecs (index : TokenHashIndex) (specs : List IndexFileSpec) : Bool :=
  index.entries.length == specs.length &&
    (index.entries.zip specs).all fun p =>
      p.1.key == p.2.key && p.1.mtimeMs == p.2.mtimeMs && p.1.size == p.2.size

/-- The index of the file, or none of any file. -/
def previousIndex (kept : Kept) (fileRead : Bool) : TokenHashIndex :=
  (TokenHashIndex.load (if fileRead then kept.file else none)).toOption.getD ⟨[]⟩

/-- `previous_by_key`. -/
def previousByKey (previous : TokenHashIndex) : StrMap IndexEntry :=
  previous.entries.foldl (fun m entry => m.insert entry.key entry) .empty

/-- The entry that is kept for a file, when its identity is unchanged. -/
def reusable (byKey : StrMap IndexEntry) (spec : IndexFileSpec) : Option IndexEntry :=
  match byKey.get spec.key with
  | some entry => if entry.mtimeMs = spec.mtimeMs ∧ entry.size = spec.size then some entry else none
  | none => none

/-- What the loop over the files collects. -/
structure Slots where
  reused : List (Option IndexEntry)
  staleSlots : List ℕ

/-- The loop over the files, for one of them. -/
def sortSlot (byKey : StrMap IndexEntry) (slots : Slots) (p : IndexFileSpec × ℕ) : Slots :=
  match reusable byKey p.1 with
  | some entry => { slots with reused := slots.reused ++ [some entry] }
  | none => { reused := slots.reused ++ [none], staleSlots := slots.staleSlots ++ [p.2] }

/-- What a thread makes of its slots, unless it panics. -/
def tokenizeChunk (u : Unicode) (specs : List IndexFileSpec) (readText : ℕ → Option String) :
    List ℕ → Option (List IndexEntry)
  | [] => some []
  | slot :: slots => do
      let spec ← specs[slot]?
      let rest ← tokenizeChunk u specs readText slots
      some (entryFor u (readText slot) spec :: rest)

def tokenizeSlotsParallel (u : Unicode) (specs : List IndexFileSpec) (staleSlots : List ℕ)
    (readText : ℕ → Option String) : List IndexEntry :=
  if staleSlots = [] then []
  else
    let threadCount := min INDEX_THREADS staleSlots.length
    let chunkSize := (staleSlots.length + threadCount - 1) / threadCount
    let chunks := (staleSlots.toChunks chunkSize).map fun chunk =>
      (tokenizeChunk u specs readText chunk).getD []
    chunks.flatten

/-- The loop that puts the entries together. -/
def mergeEntries : List (Option IndexEntry) → List IndexEntry → List IndexEntry
  | [], _ => []
  | some entry :: reused, rebuilt => entry :: mergeEntries reused rebuilt
  | none :: reused, entry :: rebuilt => entry :: mergeEntries reused rebuilt
  | none :: reused, [] => mergeEntries reused []

/-- The index and what is kept of it, when the cache does not have it. -/
def update (u : Unicode) (kept : Kept) (call : Call) : TokenHashIndex × Kept :=
  let previous := previousIndex kept call.surroundings.fileRead
  let slots := call.specs.zipIdx.foldl (sortSlot (previousByKey previous)) ⟨[], []⟩
  let rebuilt := tokenizeSlotsParallel u call.specs slots.staleSlots call.readText
  let index : TokenHashIndex := ⟨mergeEntries slots.reused rebuilt⟩
  let changed := slots.staleSlots ≠ [] || previous.entries.length ≠ call.specs.length
  let file := if changed && call.surroundings.fileWritten then some index.save else kept.file
  let cache := if call.surroundings.cacheWritten then some index else kept.cache
  (index, ⟨cache, file⟩)

/-- `build_or_update`. -/
def buildOrUpdate (u : Unicode) (kept : Kept) (call : Call) : TokenHashIndex × Kept :=
  let cached := if call.surroundings.cacheRead then kept.cache else none
  match cached.filter (·.matchesSpecs call.specs) with
  | some index => (index, kept)
  | none => update u kept call

/-- A call, or a restart of the program. -/
inductive Event where
  | call (call : Call)
  | restart

def Kept.step (u : Unicode) (kept : Kept) : Event → Kept
  | .call call => (buildOrUpdate u kept call).2
  | .restart => { kept with cache := none }

/-! ### Entries that are made anew -/

theorem toChunks_go_flatten {α : Type} (n : ℕ) (xs : List α) (chunk : Array α)
    (chunks : Array (List α)) :
    (List.toChunks.go n xs chunk chunks).flatten =
      chunks.toList.flatten ++ (chunk.toList ++ xs) := by
  induction xs generalizing chunk chunks with
  | nil => simp [List.toChunks.go]
  | cons x xs ih =>
      rw [List.toChunks.go]
      split
      · rw [ih]
        simp
      · rw [ih]
        simp

theorem toChunks_flatten {α : Type} (n : ℕ) (xs : List α) : (xs.toChunks n).flatten = xs := by
  match n, xs with
  | _, [] => rfl
  | 0, x :: xs => exact List.append_nil _
  | n + 1, x :: xs => exact toChunks_go_flatten (n + 1) xs #[x] #[]

section
variable {u : Unicode} {text : IndexFileSpec → Option String} {specs : List IndexFileSpec}
  {readText : ℕ → Option String}

/-- What is read at a slot is the text of the file there. -/
def ReadsText (text : IndexFileSpec → Option String) (specs : List IndexFileSpec)
    (readText : ℕ → Option String) : Prop :=
  ∀ slot spec, specs[slot]? = some spec → readText slot = text spec

/-- The entry that is made at a slot. -/
def entryAt (u : Unicode) (specs : List IndexFileSpec) (readText : ℕ → Option String) (slot : ℕ) :
    Option IndexEntry :=
  specs[slot]?.map (entryFor u (readText slot))

theorem tokenizeChunk_eq {slots : List ℕ} (h : ∀ slot ∈ slots, slot < specs.length) :
    tokenizeChunk u specs readText slots = some (slots.filterMap (entryAt u specs readText)) := by
  induction slots with
  | nil => rfl
  | cons slot slots ih =>
      obtain ⟨hslot, hslots⟩ := List.forall_mem_cons.mp h
      have hget := List.getElem?_eq_getElem hslot
      rw [tokenizeChunk, hget, ih hslots,
        List.filterMap_cons_some (show entryAt u specs readText slot = some _ by rw [entryAt, hget]; rfl)]
      rfl

/-- The threads make the entries in the order of the slots. -/
theorem tokenizeSlotsParallel_eq {slots : List ℕ} (h : ∀ slot ∈ slots, slot < specs.length) :
    tokenizeSlotsParallel u specs slots readText =
      slots.filterMap (entryAt u specs readText) := by
  rw [tokenizeSlotsParallel]
  split
  · next hnil =>
      rw [hnil]
      rfl
  · dsimp only
    generalize (slots.length + min INDEX_THREADS slots.length - 1) / min INDEX_THREADS slots.length =
      chunkSize
    have hflat := toChunks_flatten chunkSize slots
    have hchunks : (slots.toChunks chunkSize).map (fun chunk =>
          (tokenizeChunk u specs readText chunk).getD []) =
        (slots.toChunks chunkSize).map (List.filterMap (entryAt u specs readText)) := by
      refine List.map_congr_left fun chunk hchunk => ?_
      rw [tokenizeChunk_eq fun slot hslot => h slot ?_]
      · rfl
      · rw [← hflat]
        exact List.mem_flatten_of_mem hchunk hslot
    rw [hchunks, ← List.filterMap_flatten, hflat]

/-! ### Entries that are reused -/

theorem previousByKey_get {previous : TokenHashIndex} {key : String} {entry : IndexEntry}
    (h : (previousByKey previous).get key = some entry) :
    entry ∈ previous.entries ∧ entry.key = key := by
  rw [previousByKey] at h
  generalize previous.entries = entries at h ⊢
  induction entries using List.reverseRecOn with
  | nil => cases h
  | append_singleton entries last ih =>
      rw [List.foldl_append, List.foldl_cons, List.foldl_nil, StrMap.get_insert] at h
      split at h
      · next hkey =>
          obtain rfl := Option.some.inj h
          exact ⟨List.mem_append_right _ List.mem_cons_self, hkey.symm⟩
      · obtain ⟨hmem, hkey⟩ := ih h
        exact ⟨List.mem_append_left _ hmem, hkey⟩

/-- What is reused is an entry of the file that was there, of the same identity. -/
theorem reusable_spec {previous : TokenHashIndex} {spec : IndexFileSpec} {entry : IndexEntry}
    (h : reusable (previousByKey previous) spec = some entry) :
    entry ∈ previous.entries ∧ entry.spec = spec := by
  rw [reusable] at h
  split at h
  · next entry' hget =>
      split at h
      · next hsame =>
          obtain rfl := Option.some.inj h
          obtain ⟨hmem, hkey⟩ := previousByKey_get hget
          refine ⟨hmem, ?_⟩
          rw [IndexEntry.spec, hkey, hsame.1, hsame.2]
      · cases h
  · cases h

/-- The loop over the files: what is reused stands in their order, and so do the other slots. -/
theorem sortSlots_eq (byKey : StrMap IndexEntry) (files : List (IndexFileSpec × ℕ)) :
    files.foldl (sortSlot byKey) ⟨[], []⟩ =
      ⟨files.map fun p => reusable byKey p.1,
        (files.filter fun p => (reusable byKey p.1).isNone).map Prod.snd⟩ := by
  induction files using List.reverseRecOn with
  | nil => rfl
  | append_singleton files p ih =>
      rw [List.foldl_append, List.foldl_cons, List.foldl_nil, ih, sortSlot, List.map_append,
        List.filter_append, List.map_append]
      cases hp : reusable byKey p.1 with
      | some entry => simp [hp]
      | none => simp [hp]

/-- **What is reused and what is made anew come together in the order of the files.** -/
theorem mergeEntries_eq {α : Type} (reuse : α → Option IndexEntry) (make : α → IndexEntry)
    (files : List α) :
    mergeEntries (files.map reuse) ((files.filter fun p => (reuse p).isNone).map make) =
      files.map fun p => (reuse p).getD (make p) := by
  induction files with
  | nil => rfl
  | cons p files ih =>
      cases hp : reuse p with
      | some entry => simp [hp, mergeEntries, ih]
      | none => simp [hp, mergeEntries, ih]

end

/-! ### The index -/

section
variable {u : Unicode} {text : IndexFileSpec → Option String}

/-- The entries are those of the texts of their files. -/
def Faithful (u : Unicode) (text : IndexFileSpec → Option String) (index : TokenHashIndex) : Prop :=
  ∀ entry ∈ index.entries, entry = entryFor u (text entry.spec) entry.spec

/-- The index of these files, made anew. -/
def freshIndex (u : Unicode) (text : IndexFileSpec → Option String) (specs : List IndexFileSpec) :
    TokenHashIndex :=
  ⟨specs.map fun spec => entryFor u (text spec) spec⟩

/-- **What is kept is faithful**: what the cache has, and what the file is loaded as. -/
structure Sound (u : Unicode) (text : IndexFileSpec → Option String) (kept : Kept) : Prop where
  cache : ∀ index, kept.cache = some index → Faithful u text index
  file : ∀ index, TokenHashIndex.load kept.file = .ok index → Faithful u text index

/-- What is asked of a call: its texts are those of the files, and its sizes fit. -/
structure Call.Fits (text : IndexFileSpec → Option String) (call : Call) : Prop where
  reads : ReadsText text call.specs call.readText
  keys : ∀ spec ∈ call.specs, (asBytes spec.key).length < 2 ^ 16
  count : call.specs.length < 2 ^ 32

theorem entryFor_spec (text : Option String) (spec : IndexFileSpec) :
    (entryFor u text spec).spec = spec := by
  cases text <;> rw [entryFor, IndexEntry.spec]

theorem freshIndex_faithful (specs : List IndexFileSpec) :
    Faithful u text (freshIndex u text specs) := by
  intro entry hentry
  obtain ⟨spec, -, rfl⟩ := List.mem_map.mp hentry
  rw [entryFor_spec]

/-- A faithful index of these files is the one that is made anew. -/
theorem eq_freshIndex {index : TokenHashIndex} {specs : List IndexFileSpec}
    (hfaithful : Faithful u text index) (hspecs : index.entries.map IndexEntry.spec = specs) :
    index = freshIndex u text specs := by
  obtain ⟨entries⟩ := index
  rw [freshIndex, ← hspecs, List.map_map]
  refine congrArg TokenHashIndex.mk ?_
  conv_lhs => rw [← List.map_id entries]
  exact List.map_congr_left fun entry hentry => hfaithful entry hentry

/-- The cache has the index of these files. -/
theorem specs_of_matches {index : TokenHashIndex} {specs : List IndexFileSpec}
    (h : index.matchesSpecs specs = true) : index.entries.map IndexEntry.spec = specs := by
  rw [TokenHashIndex.matchesSpecs, Bool.and_eq_true, beq_iff_eq] at h
  obtain ⟨hlen, hall⟩ := h
  generalize index.entries = entries at hlen hall
  induction entries generalizing specs with
  | nil => exact (List.length_eq_zero_iff.mp hlen.symm).symm
  | cons entry entries ih =>
      cases specs with
      | nil => cases hlen
      | cons spec specs =>
          rw [List.zip_cons_cons, List.all_cons, Bool.and_eq_true] at hall
          have hentry : entry.spec = spec := by
            simpa [IndexEntry.spec, IndexFileSpec.ext_iff, and_assoc] using hall.1
          rw [List.map_cons, hentry, ih (Nat.succ.inj hlen) hall.2]

/-- What is reused is what would be made anew. -/
theorem reusable_getD {previous : TokenHashIndex} (hfaithful : Faithful u text previous)
    (spec : IndexFileSpec) :
    (reusable (previousByKey previous) spec).getD (entryFor u (text spec) spec) =
      entryFor u (text spec) spec := by
  cases hreuse : reusable (previousByKey previous) spec with
  | none => rfl
  | some entry =>
      obtain ⟨hmem, rfl⟩ := reusable_spec hreuse
      exact hfaithful entry hmem

/-- What is made anew at the slots that are left. -/
theorem rebuilt_eq {specs : List IndexFileSpec} {readText : ℕ → Option String}
    (hread : ReadsText text specs readText) (stale : IndexFileSpec × ℕ → Bool) :
    tokenizeSlotsParallel u specs ((specs.zipIdx.filter stale).map Prod.snd) readText =
      (specs.zipIdx.filter stale).map fun p => entryFor u (text p.1) p.1 := by
  have hget : ∀ p ∈ specs.zipIdx.filter stale, specs[p.2]? = some p.1 := fun p hp =>
    List.mem_zipIdx_iff_getElem?.mp (List.mem_of_mem_filter hp)
  rw [tokenizeSlotsParallel_eq]
  · generalize specs.zipIdx.filter stale = files at hget
    induction files with
    | nil => rfl
    | cons p files ih =>
        obtain ⟨hp, hfiles⟩ := List.forall_mem_cons.mp hget
        have hentry : entryAt u specs readText p.2 = some (entryFor u (text p.1) p.1) := by
          rw [entryAt, hp, Option.map_some, hread p.2 p.1 hp]
        rw [List.map_cons, List.filterMap_cons_some hentry, ih hfiles, List.map_cons]
  · intro slot hslot
    obtain ⟨p, hp, rfl⟩ := List.mem_map.mp hslot
    exact (List.getElem?_eq_some_iff.mp (hget p hp)).1

/-- The entries after an update: each file has the one that is reused, or the one that is made
anew. -/
theorem update_entries {kept : Kept} {call : Call}
    (hread : ReadsText text call.specs call.readText) :
    (update u kept call).1.entries = call.specs.map fun spec =>
      (reusable (previousByKey (previousIndex kept call.surroundings.fileRead)) spec).getD
        (entryFor u (text spec) spec) := by
  rw [update]
  dsimp only
  generalize previousIndex kept call.surroundings.fileRead = previous
  rw [sortSlots_eq, rebuilt_eq hread, mergeEntries_eq]
  conv_rhs => rw [← List.zipIdx_map_fst 0 call.specs, List.map_map]
  rfl

theorem previousIndex_spec {kept : Kept} {fileRead : Bool} {P : TokenHashIndex → Prop}
    (hnil : P ⟨[]⟩) (hload : ∀ index, TokenHashIndex.load kept.file = .ok index → P index) :
    P (previousIndex kept fileRead) := by
  rw [previousIndex]
  split
  · cases h : TokenHashIndex.load kept.file with
    | ok index => exact hload index h
    | error e => exact hnil
  · exact hnil

/-- **The update makes the index of the files.** -/
theorem update_index {kept : Kept} {call : Call} (hsound : Sound u text kept)
    (hread : ReadsText text call.specs call.readText) :
    (update u kept call).1 = freshIndex u text call.specs := by
  have hprevious : Faithful u text (previousIndex kept call.surroundings.fileRead) :=
    previousIndex_spec nofun hsound.file
  have hentries : (update u kept call).1.entries = _ := update_entries hread
  rw [List.map_congr_left fun spec _ => reusable_getD hprevious spec] at hentries
  exact congrArg TokenHashIndex.mk hentries

/-- **A call returns the index of its files.** -/
theorem buildOrUpdate_index {kept : Kept} {call : Call} (hsound : Sound u text kept)
    (hread : ReadsText text call.specs call.readText) :
    (buildOrUpdate u kept call).1 = freshIndex u text call.specs := by
  rw [buildOrUpdate]
  split
  · next index hcached =>
      obtain ⟨hcache, hmatches⟩ := Option.filter_eq_some_iff.mp hcached
      have hfaithful : Faithful u text index := by
        split at hcache
        · exact hsound.cache index hcache
        · cases hcache
      exact eq_freshIndex hfaithful (specs_of_matches hmatches)
  · exact update_index hsound hread

theorem entryFor_key (text : Option String) (spec : IndexFileSpec) :
    (entryFor u text spec).key = spec.key := congrArg IndexFileSpec.key (entryFor_spec (u := u) text spec)

theorem entryFor_fits {spec : IndexFileSpec} (h : (asBytes spec.key).length < 2 ^ 16) :
    (entryFor u (text spec) spec).Fits := by
  constructor
  · rw [entryFor_key]
    exact h
  · exact (entryFor_words u (text spec) spec).trans_lt (by decide)

/-- The index that is made anew fits. -/
theorem freshIndex_fits {call : Call} (h : call.Fits text) :
    (freshIndex u text call.specs).Fits := by
  constructor
  · rw [freshIndex, List.length_map]
    exact h.count
  · intro entry hentry
    obtain ⟨spec, hspec, rfl⟩ := List.mem_map.mp hentry
    exact entryFor_fits (h.keys spec hspec)

/-- What is kept after an update is what it was, or the index. -/
theorem update_kept (u : Unicode) (kept : Kept) (call : Call) :
    ((update u kept call).2.cache = some (update u kept call).1 ∨
      (update u kept call).2.cache = kept.cache) ∧
    ((update u kept call).2.file = some (update u kept call).1.save ∨
      (update u kept call).2.file = kept.file) := by
  rw [update]
  dsimp only
  generalize previousIndex kept call.surroundings.fileRead = previous
  constructor
  · split
    · exact .inl rfl
    · exact .inr rfl
  · split
    · exact .inl rfl
    · exact .inr rfl

theorem update_sound {kept : Kept} {call : Call} (hsound : Sound u text kept)
    (h : call.Fits text) : Sound u text (update u kept call).2 := by
  have hindex := update_index hsound h.reads
  obtain ⟨hcache, hfile⟩ := update_kept u kept call
  rw [hindex] at hcache hfile
  constructor
  · intro index hget
    rcases hcache with hcache | hcache
    · rw [hcache] at hget
      obtain rfl := Option.some.inj hget
      exact freshIndex_faithful call.specs
    · exact hsound.cache index (hcache.symm.trans hget)
  · intro index hload
    rcases hfile with hfile | hfile
    · rw [hfile, load_save (freshIndex_fits h)] at hload
      obtain rfl := Except.ok.inj hload
      exact freshIndex_faithful call.specs
    · exact hsound.file index (hfile ▸ hload)

/-- **What is kept stays faithful.** -/
theorem Sound.step {kept : Kept} {event : Event} (hsound : Sound u text kept)
    (h : ∀ call, event = .call call → call.Fits text) : Sound u text (kept.step u event) := by
  cases event with
  | call call =>
      rw [Kept.step, buildOrUpdate]
      split
      · exact hsound
      · exact update_sound hsound (h call rfl)
  | restart => exact ⟨nofun, hsound.file⟩

/-- And over a run. -/
theorem Sound.run {kept : Kept} {events : List Event} (hsound : Sound u text kept)
    (h : ∀ call, .call call ∈ events → call.Fits text) :
    Sound u text (events.foldl (Kept.step u) kept) := by
  induction events generalizing kept with
  | nil => exact hsound
  | cons event events ih =>
      refine ih (hsound.step fun call hcall => h call (hcall ▸ List.mem_cons_self)) fun call hcall => ?_
      exact h call (List.mem_cons_of_mem event hcall)

/-! ### Any file -/

/-- Whatever the file was, an update gives each file one entry, of its identity. -/
theorem update_specs {kept : Kept} {call : Call}
    (hread : ReadsText text call.specs call.readText) :
    (update u kept call).1.entries.map IndexEntry.spec = call.specs := by
  rw [update_entries hread, List.map_map]
  conv_rhs => rw [← List.map_id call.specs]
  refine List.map_congr_left fun spec _ => ?_
  rw [Function.comp_apply]
  cases hreuse : reusable (previousByKey (previousIndex kept call.surroundings.fileRead)) spec with
  | none => exact entryFor_spec (text spec) spec
  | some entry => exact (reusable_spec hreuse).2

/-- And the sizes fit. -/
theorem update_fits {kept : Kept} {call : Call} (h : call.Fits text) :
    (update u kept call).1.Fits := by
  have hprevious : ∀ entry ∈ (previousIndex kept call.surroundings.fileRead).entries, entry.Fits :=
    previousIndex_spec (P := fun index => ∀ entry ∈ index.entries, entry.Fits) nofun
      fun index hload => load_fits hload
  constructor
  · rw [update_entries h.reads, List.length_map]
    exact h.count
  · rw [update_entries h.reads]
    intro entry hentry
    obtain ⟨spec, hspec, rfl⟩ := List.mem_map.mp hentry
    cases hreuse : reusable (previousByKey (previousIndex kept call.surroundings.fileRead)) spec with
    | none => exact entryFor_fits (h.keys spec hspec)
    | some entry => exact hprevious entry (reusable_spec hreuse).1

/-- What the cache has fits. -/
def CacheFits (kept : Kept) : Prop := ∀ index, kept.cache = some index → index.Fits

theorem CacheFits.run {kept : Kept} {events : List Event} (hfits : CacheFits kept)
    (h : ∀ call, .call call ∈ events → call.Fits text) :
    CacheFits (events.foldl (Kept.step u) kept) := by
  induction events generalizing kept with
  | nil => exact hfits
  | cons event events ih =>
      refine ih ?_ fun call hcall => h call (List.mem_cons_of_mem event hcall)
      cases event with
      | call call =>
          rw [Kept.step, buildOrUpdate]
          split
          · exact hfits
          · intro index hget
            rcases (update_kept u kept call).1 with hcache | hcache
            · obtain rfl := Option.some.inj (hcache.symm.trans hget)
              exact update_fits (h call List.mem_cons_self)
            · exact hfits index (hcache.symm.trans hget)
      | restart => exact nofun

/-- **Whatever the file was**, a call returns one entry for each file, in their order, and what it
returns is loaded again when it is saved. -/
theorem buildOrUpdate_any {kept : Kept} {call : Call} (hfits : CacheFits kept)
    (h : call.Fits text) :
    (buildOrUpdate u kept call).1.entries.map IndexEntry.spec = call.specs ∧
      TokenHashIndex.load (some (buildOrUpdate u kept call).1.save) =
        .ok (buildOrUpdate u kept call).1 := by
  rw [buildOrUpdate]
  split
  · next index hcached =>
      obtain ⟨hcache, hmatches⟩ := Option.filter_eq_some_iff.mp hcached
      refine ⟨specs_of_matches hmatches, load_save ?_⟩
      split at hcache
      · exact hfits index hcache
      · cases hcache
  · exact ⟨update_specs h.reads, load_save (update_fits h)⟩

/-! ### Every run -/

theorem sound_nothing : Sound u text ⟨none, none⟩ :=
  ⟨fun _ h => absurd h nofun, fun _ h => absurd h nofun⟩

/-- What was in the file before is refused, or it is an index of the same texts. -/
def Trusted (u : Unicode) (text : IndexFileSpec → Option String) (file : Option (List UInt8)) :
    Prop :=
  ∀ index, TokenHashIndex.load file = .ok index → Faithful u text index

theorem trusted_of_error {file : Option (List UInt8)} {e : LoadError}
    (h : TokenHashIndex.load file = .error e) : Trusted u text file := by
  intro index hload
  rw [h] at hload
  cases hload

/-- A saved file is trusted when what was saved was faithful, and each part of it is. -/
theorem trusted_take {index : TokenHashIndex} (hfits : index.Fits)
    (hfaithful : Faithful u text index) (n : ℕ) : Trusted u text (some (index.save.take n)) := by
  by_cases hn : n < index.save.length
  · obtain ⟨e, he⟩ := load_truncated hfits hn
    exact trusted_of_error he
  · intro index' hload
    rw [List.take_of_length_le (by omega), load_save hfits] at hload
    obtain rfl := Except.ok.inj hload
    exact hfaithful

/-- **Over every run the index is what it would be without anything kept.**  Whatever the file was,
there is one entry for each file, in their order, and what is saved is loaded; and when the file is
trusted, the candidates are those of an index that is made from scratch, and every file whose text
has enough of the terms is one. -/
theorem index_fresh (u : Unicode) (text : IndexFileSpec → Option String) (kept : Kept)
    (hcache : kept.cache = none) (events : List Event)
    (hevents : ∀ call, .call call ∈ events → call.Fits text) (call : Call)
    (hcall : call.Fits text) :
    let index := (buildOrUpdate u (events.foldl (Kept.step u) kept) call).1
    index.entries.map IndexEntry.spec = call.specs ∧
    TokenHashIndex.load (some index.save) = .ok index ∧
    (Trusted u text kept.file → ∀ terms minTermMatches,
      index.candidateSlots terms minTermMatches =
        (buildOrUpdate u ⟨none, none⟩ call).1.candidateSlots terms minTermMatches ∧
      ∀ slot spec content, call.specs[slot]? = some spec → text spec = some content →
        max minTermMatches 1 ≤ (terms.filter fun term => term ∈ tokensOf u content).length →
        slot ∈ index.candidateSlots terms minTermMatches) := by
  intro index
  have hfits : CacheFits (events.foldl (Kept.step u) kept) :=
    CacheFits.run (fun index hget => absurd (hcache.symm.trans hget) nofun) hevents
  obtain ⟨hspecs, hload⟩ := buildOrUpdate_any hfits hcall
  refine ⟨hspecs, hload, fun htrusted terms minTermMatches => ?_⟩
  have hsound : Sound u text kept :=
    ⟨fun index hget => absurd (hcache.symm.trans hget) nofun, htrusted⟩
  have hindex : index = freshIndex u text call.specs :=
    buildOrUpdate_index (hsound.run hevents) hcall.reads
  have hscratch : (buildOrUpdate u ⟨none, none⟩ call).1 = freshIndex u text call.specs :=
    buildOrUpdate_index sound_nothing hcall.reads
  rw [hindex, hscratch]
  refine ⟨rfl, fun slot spec content hslot hcontent hterms => ?_⟩
  refine mem_candidateSlots_iff.mpr ⟨entryFor u (text spec) spec, ?_, ?_⟩
  · rw [freshIndex, List.getElem?_map, hslot]
    rfl
  · rw [hcontent]
    exact mayMatch_entryFor u spec hterms

end

/-- A file whose identity is known, and its text. -/
def notes : IndexFileSpec := ⟨"a", 1, 10⟩

def notesText (spec : IndexFileSpec) : Option String :=
  if spec.mtimeMs = 1 then some "a needle" else some "some needles"

def search (specs : List IndexFileSpec) : Call :=
  ⟨specs, fun slot => specs[slot]?.bind notesText, ⟨true, true, true, true⟩⟩

theorem search_fits {specs : List IndexFileSpec} (hkeys : ∀ spec ∈ specs, spec.key = "a")
    (hcount : specs.length < 2 ^ 32) : (search specs).Fits notesText := by
  refine ⟨fun slot spec hslot => ?_, fun spec hspec => ?_, hcount⟩
  · have hbind := congrArg (fun file => file.bind notesText) hslot
    exact hbind
  · rw [hkeys spec hspec]
    decide

theorem index_fresh_after_restart :
    0 ∈ (buildOrUpdate ascii ([.call (search [⟨"a", 2, 10⟩]), .restart].foldl (Kept.step ascii)
      ⟨none, some [0x4A]⟩) (search [notes])).1.candidateSlots ["needle"] 1 := by
  have hcalls : ∀ call, .call call ∈ [Event.call (search [⟨"a", 2, 10⟩]), .restart] →
      call.Fits notesText := by
    intro call hcall
    simp only [List.mem_cons, List.not_mem_nil, or_false, reduceCtorEq, Event.call.injEq] at hcall
    rw [hcall]
    exact search_fits (by decide) (by decide)
  have htrusted : Trusted ascii notesText (some [0x4A]) := trusted_of_error (e := .truncated) rfl
  have hterms : max 1 1 ≤ (["needle"].filter fun term => term ∈ tokensOf ascii "a needle").length := by
    decide +kernel
  have hfits : (search [notes]).Fits notesText := search_fits (by decide) (by decide)
  obtain ⟨-, -, hrun⟩ := index_fresh ascii notesText ⟨none, some [0x4A]⟩ rfl _ hcalls _ hfits
  exact (hrun htrusted ["needle"] 1).2 0 notes "a needle" rfl rfl hterms

/-- A file that is loaded, but whose filter is not of the text. -/
def corrupt : TokenHashIndex := ⟨[⟨"a", 1, 10, false, ⟨0, []⟩⟩]⟩

/-- Such a file is believed: the text that has the term is no candidate, as it is from scratch. -/
theorem corrupt_file_misleads :
    (buildOrUpdate ascii ⟨none, some corrupt.save⟩ (search [notes])).1.candidateSlots ["needle"] 1 =
      [] ∧
    0 ∈ (buildOrUpdate ascii ⟨none, none⟩ (search [notes])).1.candidateSlots ["needle"] 1 := by
  have hfits : (search [notes]).Fits notesText := search_fits (by decide) (by decide)
  constructor
  · have hload : TokenHashIndex.load (some corrupt.save) = .ok corrupt := by
      refine load_save ⟨by decide, fun entry hentry => ?_⟩
      obtain rfl := List.mem_singleton.mp hentry
      exact ⟨by decide, by decide⟩
    have hprevious : previousIndex ⟨none, some corrupt.save⟩ true = corrupt := by
      rw [previousIndex, if_pos rfl, hload]
      rfl
    have hreuse : reusable (previousByKey corrupt) notes = some ⟨"a", 1, 10, false, ⟨0, []⟩⟩ := rfl
    have hentries : (update ascii ⟨none, some corrupt.save⟩ (search [notes])).1.entries = _ :=
      update_entries hfits.reads
    have hindex : (buildOrUpdate ascii ⟨none, some corrupt.save⟩ (search [notes])).1 = corrupt := by
      refine congrArg TokenHashIndex.mk (hentries.trans ?_)
      simp only [search, List.map_cons, List.map_nil, hprevious, hreuse, Option.getD_some]
    rw [hindex]
    decide +kernel
  · rw [buildOrUpdate_index sound_nothing hfits.reads]
    have hterms : max 1 1 ≤
        (["needle"].filter fun term => term ∈ tokensOf ascii "a needle").length := by
      decide +kernel
    exact mem_candidateSlots_iff.mpr
      ⟨entryFor ascii (some "a needle") notes, rfl, mayMatch_entryFor ascii notes hterms⟩

end Jcode.SessionSearch
