import Jcode.Support.Bloom
import Jcode.SessionSearch.Profile

/-!
# SessionSearch — the token index

`tool/session_search_index.rs`: an entry a file, with a Bloom filter over the hashes of the tokens in
it, and the slots of the files that may match a query.

* `contains_fromHashes`: a filter has every hash it was made of.
* `mem_candidateSlots_iff`: the slots whose entries may match.
* `mayMatch_entryFor`: a text with enough of the terms as tokens has an entry that may match.
-/

namespace Jcode.SessionSearch
open Rust

def MAX_INDEX_TOKEN_LEN : ℕ := 32
def MAX_TOKENS_PER_FILE : ℕ := 200000
def BLOOM_BITS_PER_TOKEN : ℕ := 8
def BLOOM_HASHES : ℕ := 4

@[ext] structure IndexFileSpec where
  key : String
  mtimeMs : UInt64
  size : UInt64
  deriving DecidableEq

structure TokenBloom where
  tokenCount : UInt32
  bits : List UInt64
  deriving DecidableEq

structure IndexEntry where
  key : String
  mtimeMs : UInt64
  size : UInt64
  overflow : Bool
  tokens : TokenBloom
  deriving DecidableEq

structure TokenHashIndex where
  entries : List IndexEntry
  deriving DecidableEq

/-- `str::as_bytes`. -/
def asBytes (s : String) : List UInt8 := s.toUTF8.data.toList

namespace TokenBloom

/-- `probe_positions`. -/
def probePositions (hash : UInt32) : List UInt64 :=
  let x := hash.toUInt64 + 0x9e3779b97f4a7c15
  let x := (x ^^^ (x >>> 30)) * 0xbf58476d1ce4e5b9
  let x := (x ^^^ (x >>> 27)) * 0x94d049bb133111eb
  let x := x ^^^ (x >>> 31)
  let h1 := x
  let h2 := (x >>> 32) ||| 1
  (List.range BLOOM_HASHES).map fun i => h1 + h2 * UInt64.ofNat i

/-- `usize::next_power_of_two`. -/
def nextPowerOfTwo (n : ℕ) : ℕ := 2 ^ Nat.clog 2 n

/-- The words of a filter for so many hashes. -/
def wordsFor (count : ℕ) : ℕ := nextPowerOfTwo (max (count * BLOOM_BITS_PER_TOKEN) 64 / 64)

/-- `from_hashes`. -/
def fromHashes (hashes : List UInt32) : TokenBloom :=
  if hashes = [] then ⟨0, []⟩
  else
    let words := wordsFor hashes.length
    ⟨UInt32.ofNat hashes.length,
      hashes.foldl (Bloom.insert probePositions (Bloom.maskOf words)) (List.replicate words 0)⟩

def contains (bloom : TokenBloom) (hash : UInt32) : Bool :=
  if bloom.bits = [] then false
  else Bloom.contains probePositions (Bloom.maskOf bloom.bits.length) bloom.bits hash

end TokenBloom

/-- `hash_token`. -/
def hashToken (token : String) : UInt32 :=
  (asBytes token).foldl (fun hash byte => (hash ^^^ byte.toUInt32) * 0x01000193) 0x811c9dc5

/-- The tokens of a searchable text. -/
def tokensOf (u : Unicode) (text : String) : List String :=
  tokenizeSessionSearchQuery u (u.toLowercase text)

/-- `hash_tokens_for_text`. -/
def hashTokensForText (u : Unicode) (text : String) : List UInt32 × Bool :=
  let short := (tokensOf u text).filter fun token => (asBytes token).length ≤ MAX_INDEX_TOKEN_LEN
  let hashes := ((short.map hashToken).insertionSort (· ≤ ·)).dedup
  let overflow := MAX_TOKENS_PER_FILE < hashes.length
  (if overflow then hashes.take MAX_TOKENS_PER_FILE else hashes, overflow)

/-- The hash that a term is looked up by, when it is short enough to be indexed. -/
def termHash (term : String) : Option UInt32 :=
  if (asBytes term).length ≤ MAX_INDEX_TOKEN_LEN then some (hashToken term) else none

/-- Whether the entry of a file may match. -/
def IndexEntry.mayMatch (entry : IndexEntry) (termHashes : List (Option UInt32))
    (minTermMatches : ℕ) : Bool :=
  entry.overflow ||
    max minTermMatches 1 ≤
      (termHashes.filter fun hash => hash.elim true entry.tokens.contains).length

namespace TokenHashIndex

def candidateSlots (index : TokenHashIndex) (terms : List String) (minTermMatches : ℕ) : List ℕ :=
  let termHashes := terms.map termHash
  (index.entries.zipIdx.filter fun p => p.1.mayMatch termHashes minTermMatches).map Prod.snd

end TokenHashIndex

/-- What `tokenize_slots_parallel` makes of one file and its text. -/
def entryFor (u : Unicode) (text : Option String) (spec : IndexFileSpec) : IndexEntry :=
  let hashed :=
    match text with
    | some text => hashTokensForText u text
    | none => ([], true)
  ⟨spec.key, spec.mtimeMs, spec.size, hashed.2, .fromHashes hashed.1⟩

/-! ### The filter -/

namespace TokenBloom

theorem wordsFor_pos (count : ℕ) : 0 < wordsFor count := Nat.pow_pos (by decide)

/-- The filters of the index are small. -/
theorem wordsFor_le {count : ℕ} (h : count ≤ MAX_TOKENS_PER_FILE) : wordsFor count ≤ 2 ^ 15 := by
  have hfew : max (count * BLOOM_BITS_PER_TOKEN) 64 / 64 ≤ 2 ^ 15 := by
    simp only [MAX_TOKENS_PER_FILE, BLOOM_BITS_PER_TOKEN] at *
    omega
  exact Nat.pow_le_pow_right (by decide) (Nat.clog_le_of_le_pow hfew)

theorem length_bits_fromHashes {hashes : List UInt32} (h : hashes ≠ []) :
    (fromHashes hashes).bits.length = wordsFor hashes.length := by
  rw [fromHashes, if_neg h]
  exact (Bloom.length_inserts ..).trans List.length_replicate

theorem length_bits_le {hashes : List UInt32} (hfew : hashes.length ≤ MAX_TOKENS_PER_FILE) :
    (fromHashes hashes).bits.length ≤ 2 ^ 15 := by
  by_cases hnil : hashes = []
  · rw [fromHashes, if_pos hnil]
    exact Nat.zero_le _
  · rw [length_bits_fromHashes hnil]
    exact wordsFor_le hfew

/-- **A filter has every hash it was made of.** -/
theorem contains_fromHashes {hashes : List UInt32} {hash : UInt32} (hmem : hash ∈ hashes)
    (hfew : hashes.length ≤ MAX_TOKENS_PER_FILE) : (fromHashes hashes).contains hash = true := by
  have hne : hashes ≠ [] := List.ne_nil_of_mem hmem
  have hpos := wordsFor_pos hashes.length
  have hle := wordsFor_le hfew
  have hlen := length_bits_fromHashes hne
  have hbits : (fromHashes hashes).bits ≠ [] := by
    rw [← List.length_pos_iff, hlen]
    exact hpos
  rw [contains, if_neg hbits, hlen, fromHashes, if_neg hne]
  refine Bloom.contains_of_mem hmem fun probe => ?_
  rw [List.length_replicate]
  exact Bloom.reduced_lt hpos (by omega) probe

end TokenBloom

/-! ### Candidates -/

theorem mem_candidateSlots_iff {index : TokenHashIndex} {terms : List String}
    {minTermMatches slot : ℕ} :
    slot ∈ index.candidateSlots terms minTermMatches ↔
      ∃ entry, index.entries[slot]? = some entry ∧
        entry.mayMatch (terms.map termHash) minTermMatches = true := by
  rw [TokenHashIndex.candidateSlots, List.mem_map]
  constructor
  · rintro ⟨⟨entry, slot'⟩, hmem, rfl⟩
    obtain ⟨hzip, hmatch⟩ := List.mem_filter.mp hmem
    exact ⟨entry, List.mem_zipIdx_iff_getElem?.mp hzip, hmatch⟩
  · rintro ⟨entry, hget, hmatch⟩
    exact ⟨(entry, slot), List.mem_filter.mpr ⟨List.mem_zipIdx_iff_getElem?.mpr hget, hmatch⟩,
      rfl⟩

section
variable (u : Unicode)

theorem hashTokensForText_length (text : String) :
    (hashTokensForText u text).1.length ≤ MAX_TOKENS_PER_FILE := by
  rw [hashTokensForText]
  dsimp only
  split
  · exact List.length_take_le _ _
  · next h => simpa using h

/-- The hash of a short token is kept, unless there are too many. -/
theorem hash_mem {text token : String} (hmem : token ∈ tokensOf u text)
    (hshort : (asBytes token).length ≤ MAX_INDEX_TOKEN_LEN)
    (hfits : (hashTokensForText u text).2 = false) :
    hashToken token ∈ (hashTokensForText u text).1 := by
  rw [hashTokensForText] at hfits ⊢
  dsimp only at hfits ⊢
  rw [if_neg (by simpa using hfits), List.mem_dedup, List.mem_insertionSort]
  exact List.mem_map_of_mem (List.mem_filter.mpr ⟨hmem, decide_eq_true hshort⟩)

theorem entryFor_tokens (text : String) (spec : IndexFileSpec) :
    (entryFor u (some text) spec).tokens = .fromHashes (hashTokensForText u text).1 := by
  rw [entryFor]

theorem entryFor_overflow (text : String) (spec : IndexFileSpec) :
    (entryFor u (some text) spec).overflow = (hashTokensForText u text).2 := by
  rw [entryFor]

/-- The filter of an entry is small. -/
theorem entryFor_words (text : Option String) (spec : IndexFileSpec) :
    (entryFor u text spec).tokens.bits.length ≤ 2 ^ 15 := by
  cases text with
  | some text =>
      rw [entryFor_tokens]
      exact TokenBloom.length_bits_le (hashTokensForText_length u text)
  | none =>
      rw [entryFor]
      exact TokenBloom.length_bits_le (Nat.zero_le _)

/-- A token of the text is found by its entry. -/
theorem term_found {text token : String} (spec : IndexFileSpec) (hmem : token ∈ tokensOf u text)
    (hfits : (hashTokensForText u text).2 = false) :
    (termHash token).elim true (entryFor u (some text) spec).tokens.contains = true := by
  rw [termHash]
  split
  · next hshort =>
      rw [Option.elim_some, entryFor_tokens]
      exact TokenBloom.contains_fromHashes (hash_mem u hmem hshort hfits)
        (hashTokensForText_length u text)
  · rfl

/-- **A text with enough of the terms as tokens has an entry that may match.** -/
theorem mayMatch_entryFor {text : String} {terms : List String} {minTermMatches : ℕ}
    (spec : IndexFileSpec)
    (h : max minTermMatches 1 ≤ (terms.filter fun term => term ∈ tokensOf u text).length) :
    (entryFor u (some text) spec).mayMatch (terms.map termHash) minTermMatches = true := by
  rw [IndexEntry.mayMatch, Bool.or_eq_true, entryFor_overflow]
  cases hfits : (hashTokensForText u text).2 with
  | true => exact .inl rfl
  | false =>
      right
      rw [decide_eq_true_iff]
      refine h.trans ?_
      rw [List.filter_map, List.length_map]
      refine (List.monotone_filter_right terms fun term hterm => ?_).length_le
      exact term_found u spec (of_decide_eq_true hterm) hfits

end

end Jcode.SessionSearch
