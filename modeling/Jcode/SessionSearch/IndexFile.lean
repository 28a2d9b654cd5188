import Jcode.Support.Wire
import Jcode.SessionSearch.TokenIndex

/-!
# SessionSearch — the index file

`TokenHashIndex::save` and `load`: the entries are written in two passes, first what identifies each
of them, then the words of its filter.  The sizes are written in fixed widths.

* `load_save`: what is saved is loaded, when the sizes fit their widths.
* `load_fits`: what is loaded may be saved again.
* `load_truncated`: a part of a saved file is refused.
-/

namespace Jcode.SessionSearch
open Rust Wire

def MAGIC : List UInt8 := [0x4A, 0x53, 0x49, 0x58]
def VERSION : UInt32 := 2

/-- Why a file is not loaded. -/
inductive LoadError where
  | io
  | truncated
  | badMagic
  | versionMismatch
  | invalidKey
  deriving DecidableEq

/-! ### Saving -/

/-- The first pass, for an entry. -/
def writeMeta (entry : IndexEntry) : List UInt8 :=
  let keyBytes := asBytes entry.key
  leBytes 2 keyBytes.length ++ keyBytes ++ leBytes 8 entry.mtimeMs.toNat ++
    leBytes 8 entry.size.toNat ++ [if entry.overflow then 1 else 0] ++
    leBytes 4 entry.tokens.tokenCount.toNat ++ leBytes 4 entry.tokens.bits.length

/-- The second pass, for an entry. -/
def writeWords (entry : IndexEntry) : List UInt8 :=
  entry.tokens.bits.flatMap fun word => leBytes 8 word.toNat

/-- What `save` writes. -/
def TokenHashIndex.save (index : TokenHashIndex) : List UInt8 :=
  MAGIC ++ leBytes 4 VERSION.toNat ++ leBytes 4 index.entries.length ++
    index.entries.flatMap writeMeta ++ index.entries.flatMap writeWords

/-! ### Loading -/

/-- `str::from_utf8`. -/
def fromUtf8 (bytes : List UInt8) : Option String := String.fromUTF8? ⟨bytes.toArray⟩

/-- `Cursor::take`. -/
def takeBytes (len : ℕ) : Reader LoadError (List UInt8) := take .truncated len

def readU16 : Reader LoadError UInt16 := do
  let bytes ← takeBytes 2
  pure (UInt16.ofNat (leValue bytes))

def readU32 : Reader LoadError UInt32 := do
  let bytes ← takeBytes 4
  pure (UInt32.ofNat (leValue bytes))

def readU64 : Reader LoadError UInt64 := do
  let bytes ← takeBytes 8
  pure (UInt64.ofNat (leValue bytes))

/-- A check that ends the loading. -/
def expect (ok : Bool) (e : LoadError) : Reader LoadError Unit := if ok then pure () else throw e

def readKey (bytes : List UInt8) : Reader LoadError String :=
  match fromUtf8 bytes with
  | some key => pure key
  | none => throw .invalidKey

/-- What the first pass reads of an entry. -/
structure EntryMeta where
  key : String
  mtimeMs : UInt64
  size : UInt64
  overflow : Bool
  tokenCount : UInt32
  wordCount : UInt32

def readMeta : Reader LoadError EntryMeta := do
  let keyLen ← readU16
  let bytes ← takeBytes keyLen.toNat
  let key ← readKey bytes
  let mtimeMs ← readU64
  let size ← readU64
  let flag ← takeBytes 1
  let tokenCount ← readU32
  let wordCount ← readU32
  pure ⟨key, mtimeMs, size, flag.headD 0 != 0, tokenCount, wordCount⟩

/-- `chunks_exact(8)`, each of them a word. -/
def wordsOf : List UInt8 → List UInt64
  | b₀ :: b₁ :: b₂ :: b₃ :: b₄ :: b₅ :: b₆ :: b₇ :: rest =>
      UInt64.ofNat (leValue [b₀, b₁, b₂, b₃, b₄, b₅, b₆, b₇]) :: wordsOf rest
  | _ => []

def readEntry (m : EntryMeta) : Reader LoadError IndexEntry := do
  let bytes ← takeBytes (m.wordCount.toNat * 8)
  pure ⟨m.key, m.mtimeMs, m.size, m.overflow, ⟨m.tokenCount, wordsOf bytes⟩⟩

def readIndex : Reader LoadError TokenHashIndex := do
  let magic ← takeBytes 4
  expect (magic == MAGIC) .badMagic
  let version ← readU32
  expect (version == VERSION) .versionMismatch
  let entryCount ← readU32
  let metas ← many readMeta entryCount.toNat
  let entries ← each readEntry metas
  pure ⟨entries⟩

/-- `TokenHashIndex::load`, of what is at the path. -/
def TokenHashIndex.load (file : Option (List UInt8)) : Except LoadError TokenHashIndex :=
  match file with
  | some raw => (readIndex raw).map Prod.fst
  | none => .error .io

/-! ### What is saved is loaded -/

/-- The sizes of an entry fit the widths they are written in. -/
structure IndexEntry.Fits (entry : IndexEntry) : Prop where
  key : (asBytes entry.key).length < 2 ^ 16
  words : entry.tokens.bits.length < 2 ^ 32

/-- The sizes of an index fit. -/
structure TokenHashIndex.Fits (index : TokenHashIndex) : Prop where
  count : index.entries.length < 2 ^ 32
  entries : ∀ entry ∈ index.entries, entry.Fits

def metaOf (entry : IndexEntry) : EntryMeta :=
  ⟨entry.key, entry.mtimeMs, entry.size, entry.overflow, entry.tokens.tokenCount,
    UInt32.ofNat entry.tokens.bits.length⟩

theorem fromUtf8_asBytes (s : String) : fromUtf8 (asBytes s) = some s := by
  have hbytes : (⟨(asBytes s).toArray⟩ : ByteArray) = s.toByteArray := by
    rw [asBytes, Array.toArray_toList]
    rfl
  rw [fromUtf8, hbytes, String.fromUTF8?, dif_pos s.isValidUTF8]
  rfl

theorem reads_takeBytes {bytes : List UInt8} {n : ℕ} (h : bytes.length = n) :
    Reads (takeBytes n) bytes bytes := reads_take h

theorem reads_u16 {n : ℕ} (h : n < 2 ^ 16) : Reads readU16 (leBytes 2 n) (UInt16.ofNat n) := by
  have hread := (reads_takeBytes (length_leBytes 2 n)).map fun bytes =>
    UInt16.ofNat (leValue bytes)
  rwa [leValue_leBytes_of_lt h] at hread

theorem reads_u32 {n : ℕ} (h : n < 2 ^ 32) : Reads readU32 (leBytes 4 n) (UInt32.ofNat n) := by
  have hread := (reads_takeBytes (length_leBytes 4 n)).map fun bytes =>
    UInt32.ofNat (leValue bytes)
  rwa [leValue_leBytes_of_lt h] at hread

theorem ofNat_leValue_u64 (x : UInt64) : UInt64.ofNat (leValue (leBytes 8 x.toNat)) = x := by
  rw [leValue_leBytes_of_lt x.toNat_lt, UInt64.ofNat_toNat]

theorem reads_u64 (x : UInt64) : Reads readU64 (leBytes 8 x.toNat) x := by
  have hread := (reads_takeBytes (length_leBytes 8 x.toNat)).map fun bytes =>
    UInt64.ofNat (leValue bytes)
  rwa [ofNat_leValue_u64] at hread

theorem reads_expect {ok : Bool} (h : ok = true) (e : LoadError) : Reads (expect ok e) [] () := by
  rw [expect, if_pos h]
  exact reads_pure ()

theorem reads_key (key : String) : Reads (readKey (asBytes key)) [] key := by
  rw [readKey, fromUtf8_asBytes]
  exact reads_pure key

theorem writeMeta_eq (entry : IndexEntry) : writeMeta entry =
    leBytes 2 (asBytes entry.key).length ++ (asBytes entry.key ++ ([] ++
      (leBytes 8 entry.mtimeMs.toNat ++ (leBytes 8 entry.size.toNat ++
        ([if entry.overflow then 1 else 0] ++ (leBytes 4 entry.tokens.tokenCount.toNat ++
          leBytes 4 entry.tokens.bits.length)))))) := by
  simp only [writeMeta, List.append_assoc, List.nil_append]

theorem reads_meta {entry : IndexEntry} (h : entry.Fits) :
    Reads readMeta (writeMeta entry) (metaOf entry) := by
  have hkeyLen : (UInt16.ofNat (asBytes entry.key).length).toNat = (asBytes entry.key).length :=
    UInt16.toNat_ofNat_of_lt' h.key
  have hflag : ((([if entry.overflow then 1 else 0] : List UInt8).headD 0) != 0) = entry.overflow := by
    cases entry.overflow <;> rfl
  have hcount : UInt32.ofNat entry.tokens.tokenCount.toNat = entry.tokens.tokenCount :=
    UInt32.ofNat_toNat
  have hcount' := reads_u32 entry.tokens.tokenCount.toNat_lt
  rw [hcount] at hcount'
  have hflag' : Reads (takeBytes 1) [if entry.overflow then 1 else 0]
      [if entry.overflow then 1 else 0] := reads_takeBytes rfl
  rw [writeMeta_eq, metaOf]
  refine (reads_u16 h.key).bind ((reads_takeBytes hkeyLen.symm).bind ((reads_key entry.key).bind
    ((reads_u64 entry.mtimeMs).bind ((reads_u64 entry.size).bind (hflag'.bind
      (hcount'.bind ?_))))))
  rw [hflag]
  exact (reads_u32 h.words).map _

theorem wordsOf_append (word : UInt64) (rest : List UInt8) :
    wordsOf (leBytes 8 word.toNat ++ rest) = word :: wordsOf rest := by
  have hunfold : wordsOf (leBytes 8 word.toNat ++ rest) =
      UInt64.ofNat (leValue (leBytes 8 word.toNat)) :: wordsOf rest := rfl
  rw [hunfold, ofNat_leValue_u64]

theorem wordsOf_words (words : List UInt64) :
    wordsOf (words.flatMap fun word => leBytes 8 word.toNat) = words := by
  induction words with
  | nil => rfl
  | cons word words ih => rw [List.flatMap_cons, wordsOf_append, ih]

theorem length_writeWords (entry : IndexEntry) :
    (writeWords entry).length = entry.tokens.bits.length * 8 := by
  rw [writeWords]
  induction entry.tokens.bits with
  | nil => rfl
  | cons word words ih =>
      rw [List.flatMap_cons, List.length_append, length_leBytes, ih, List.length_cons]
      omega

theorem reads_entry {entry : IndexEntry} (h : entry.Fits) :
    Reads (readEntry (metaOf entry)) (writeWords entry) entry := by
  have hlen : (writeWords entry).length = (metaOf entry).wordCount.toNat * 8 := by
    rw [length_writeWords]
    exact congrArg (· * 8) (UInt32.toNat_ofNat_of_lt' h.words).symm
  have hread := (reads_takeBytes hlen).map fun bytes =>
    (⟨(metaOf entry).key, (metaOf entry).mtimeMs, (metaOf entry).size, (metaOf entry).overflow,
      ⟨(metaOf entry).tokenCount, wordsOf bytes⟩⟩ : IndexEntry)
  rw [writeWords, wordsOf_words] at hread
  exact hread

theorem save_eq (index : TokenHashIndex) : index.save =
    MAGIC ++ ([] ++ (leBytes 4 VERSION.toNat ++ ([] ++ (leBytes 4 index.entries.length ++
      (index.entries.flatMap writeMeta ++ index.entries.flatMap writeWords))))) := by
  simp only [TokenHashIndex.save, List.append_assoc, List.nil_append]

theorem reads_index {index : TokenHashIndex} (h : index.Fits) :
    Reads readIndex index.save index := by
  have hcount : (UInt32.ofNat index.entries.length).toNat = index.entries.length :=
    UInt32.toNat_ofNat_of_lt' h.count
  have hmetas : Reads (many readMeta (UInt32.ofNat index.entries.length).toNat)
      (index.entries.flatMap writeMeta) (index.entries.map metaOf) := by
    rw [hcount]
    exact reads_many fun entry hentry => reads_meta (h.entries entry hentry)
  have hentries := reads_each fun entry hentry => reads_entry (h.entries entry hentry)
  have hmagic : Reads (takeBytes 4) MAGIC MAGIC := reads_takeBytes rfl
  have hversion : Reads readU32 (leBytes 4 VERSION.toNat) VERSION := reads_u32 (by decide)
  rw [save_eq]
  exact hmagic.bind ((reads_expect rfl _).bind (hversion.bind ((reads_expect rfl _).bind
    ((reads_u32 h.count).bind (hmetas.bind (hentries.map _))))))

/-- **What is saved is loaded.** -/
theorem load_save {index : TokenHashIndex} (h : index.Fits) :
    TokenHashIndex.load (some index.save) = .ok index := by
  have hread := reads_index h []
  rw [List.append_nil] at hread
  rw [TokenHashIndex.load, hread]
  rfl

/-! ### What is loaded fits -/

theorem asBytes_fromUtf8 {bytes : List UInt8} {s : String} (h : fromUtf8 bytes = some s) :
    asBytes s = bytes := by
  rw [fromUtf8, String.fromUTF8?] at h
  split at h
  · obtain rfl := Option.some.inj h
    rfl
  · cases h

theorem yields_key (bytes : List UInt8) :
    Yields (readKey bytes) fun key => asBytes key = bytes := by
  rw [readKey]
  split
  · next key hkey => exact yields_pure (asBytes_fromUtf8 hkey)
  · exact nofun

theorem yields_meta :
    Yields readMeta fun m => (asBytes m.key).length < 2 ^ 16 := by
  refine (yields_any readU16).bind fun keyLen _ => ?_
  refine (yields_take _ keyLen.toNat).bind fun bytes hbytes => ?_
  refine (yields_key bytes).bind fun key hkey => (yields_any readU64).bind fun mtimeMs _ => ?_
  refine (yields_any readU64).bind fun size _ => (yields_any _).bind fun flag _ => ?_
  refine (yields_any readU32).bind fun tokenCount _ => (yields_any readU32).bind fun wordCount _ => ?_
  refine yields_pure ?_
  dsimp only
  rw [hkey, hbytes]
  exact keyLen.toNat_lt

theorem length_wordsOf (bytes : List UInt8) : (wordsOf bytes).length * 8 ≤ bytes.length := by
  fun_induction wordsOf bytes with
  | case1 b₀ b₁ b₂ b₃ b₄ b₅ b₆ b₇ rest ih =>
      simp only [List.length_cons]
      omega
  | case2 bytes hshort => exact Nat.zero_le _

theorem yields_entry {m : EntryMeta} (h : (asBytes m.key).length < 2 ^ 16) :
    Yields (readEntry m) IndexEntry.Fits := by
  refine (yields_take _ _).bind fun bytes hbytes => yields_pure ⟨h, ?_⟩
  have hwords := length_wordsOf bytes
  have hcount := m.wordCount.toNat_lt
  dsimp only
  omega

/-- **What is loaded fits.** -/
theorem load_fits {file : Option (List UInt8)} {index : TokenHashIndex}
    (h : TokenHashIndex.load file = .ok index) : ∀ entry ∈ index.entries, entry.Fits := by
  have hyields : Yields readIndex fun index => ∀ entry ∈ index.entries, entry.Fits := by
    refine (yields_any _).bind fun magic _ => (yields_any _).bind fun _ _ => ?_
    refine (yields_any _).bind fun version _ => (yields_any _).bind fun _ _ => ?_
    refine (yields_any _).bind fun entryCount _ => ?_
    refine (yields_meta.many entryCount.toNat).bind fun metas hmetas => ?_
    refine (Yields.each metas fun m hm => yields_entry (hmetas.2 m hm)).bind fun entries hentries => ?_
    exact yields_pure hentries.2
  cases file with
  | none => cases h
  | some raw =>
      rw [TokenHashIndex.load] at h
      cases hread : readIndex raw with
      | error e =>
          rw [hread] at h
          cases h
      | ok p =>
          rw [hread] at h
          obtain rfl := Except.ok.inj h
          exact hyields raw p.1 p.2 hread

/-! ### A part of a file -/

theorem steady_takeBytes (len : ℕ) : Steady (takeBytes len) := steady_take _ len

theorem steady_u16 : Steady readU16 := (steady_takeBytes 2).bind fun _ => steady_pure _

theorem steady_u32 : Steady readU32 := (steady_takeBytes 4).bind fun _ => steady_pure _

theorem steady_u64 : Steady readU64 := (steady_takeBytes 8).bind fun _ => steady_pure _

theorem steady_expect (ok : Bool) (e : LoadError) : Steady (expect ok e) := by
  rw [expect]
  split
  · exact steady_pure ()
  · exact steady_throw e

theorem steady_key (bytes : List UInt8) : Steady (readKey bytes) := by
  rw [readKey]
  split
  · exact steady_pure _
  · exact steady_throw _

theorem steady_meta : Steady readMeta := by
  refine steady_u16.bind fun keyLen => (steady_takeBytes keyLen.toNat).bind fun bytes => ?_
  refine (steady_key bytes).bind fun key => steady_u64.bind fun mtimeMs => ?_
  refine steady_u64.bind fun size => (steady_takeBytes 1).bind fun flag => ?_
  exact steady_u32.bind fun tokenCount => steady_u32.bind fun wordCount => steady_pure _

theorem steady_entry (m : EntryMeta) : Steady (readEntry m) :=
  (steady_takeBytes _).bind fun _ => steady_pure _

theorem steady_index : Steady readIndex := by
  refine (steady_takeBytes 4).bind fun magic => (steady_expect _ _).bind fun _ => ?_
  refine steady_u32.bind fun version => (steady_expect _ _).bind fun _ => ?_
  refine steady_u32.bind fun entryCount => (steady_meta.many entryCount.toNat).bind fun metas => ?_
  exact (Steady.each steady_entry metas).bind fun entries => steady_pure _

/-- **A part of a saved file is refused.** -/
theorem load_truncated {index : TokenHashIndex} (h : index.Fits) {n : ℕ}
    (hn : n < index.save.length) :
    ∃ e, TokenHashIndex.load (some (index.save.take n)) = .error e := by
  obtain ⟨e, he⟩ := (reads_index h).truncated steady_index hn
  exact ⟨e, by rw [TokenHashIndex.load, he]; rfl⟩

end Jcode.SessionSearch
