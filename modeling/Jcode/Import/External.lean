import Jcode.Support.Text

/-!
# Import — the text of an external message

`extract_external_text_from_json` of `jcode-import-core/src/lib.rs`.  The visit reads a string's text
and nothing else of it, so the strings of a value may be of any type that has a text: with the
texts alone the visit is the source's, and with leaves that know where they come from it tells what
it has picked up.  The keys of an object are in order, as in a `BTreeMap`.

The key `content` is passed over, so blocks in a tool result are not visited; every other key is
visited, so the data of an image is picked up.

* `visit_map`: what is picked up does not depend on what a string is.
* `visit_false`: without tools it is the visit of the value without them.
* `pushed_iff`: the texts, and not the data, are picked up where nothing of either kind is in the
  way.
* `extract_exact`: so the extraction is faithful exactly there.
-/

namespace Jcode.Import.External
open Rust

variable {σ τ : Type}

/-! ### Values -/

/-- `serde_json::Value`, with strings of a type of their own; a number by its text. -/
inductive Value (τ : Type) where
  | null
  | bool (b : Bool)
  | number (text : String)
  | string (s : τ)
  | array (items : List (Value τ))
  | object (map : List (String × Value τ))

namespace Value

mutual

/-- The strings changed. -/
def map (g : σ → τ) : Value σ → Value τ
  | null => null
  | bool b => bool b
  | number text => number text
  | string s => string (g s)
  | array items => array (mapItems g items)
  | object fields => object (mapFields g fields)

def mapItems (g : σ → τ) : List (Value σ) → List (Value τ)
  | [] => []
  | item :: items => item.map g :: mapItems g items

def mapFields (g : σ → τ) : List (String × Value σ) → List (String × Value τ)
  | [] => []
  | (key, value) :: fields => (key, value.map g) :: mapFields g fields

end

def asStr : Value τ → Option τ
  | string s => some s
  | _ => none

/-- `map.get(key).and_then(|v| v.as_str())`. -/
def getStr (key : String) : List (String × Value τ) → Option τ
  | [] => none
  | (k, value) :: fields => if k = key then value.asStr else getStr key fields

end Value

/-! ### The visit -/

def nonBlank (text : τ → String) (s : τ) : List τ := if trim (text s) = "" then [] else [s]

/-- What a block has under `text`, or else under `content`. -/
def body (text : τ → String) (includeTools : Bool) (fields : List (String × Value τ)) : List τ :=
  match Value.getStr "text" fields with
  | some s => nonBlank text s
  | none =>
      if includeTools then ((Value.getStr "content" fields).map (nonBlank text)).getD []
      else []

def isTool (text : τ → String) (fields : List (String × Value τ)) : Bool :=
  let blockType := ((Value.getStr "type" fields).map text).getD ""
  blockType == "tool_use" || blockType == "tool_result" || blockType == "function_call"

mutual

/-- `visit`: the strings that are picked up, in their order. -/
def visit (text : τ → String) (includeTools : Bool) : Value τ → List τ
  | .string s => nonBlank text s
  | .array items => visitItems text includeTools items
  | .object fields =>
      if !includeTools && isTool text fields then []
      else body text includeTools fields ++ visitFields text includeTools fields
  | _ => []

def visitItems (text : τ → String) (includeTools : Bool) : List (Value τ) → List τ
  | [] => []
  | item :: items => visit text includeTools item ++ visitItems text includeTools items

def visitFields (text : τ → String) (includeTools : Bool) : List (String × Value τ) → List τ
  | [] => []
  | (key, nested) :: fields =>
      (if key == "type" || key == "text" || key == "content" then []
        else visit text includeTools nested) ++ visitFields text includeTools fields

end

def extractExternalTextFromJson (value : Value String) (includeTools : Bool) : String :=
  join "\n" ((visit id includeTools value).map trim)

/-! ### Message contents -/

/-- What a string of a message content is. -/
inductive Source
  | text
  | imageData
  | other
  deriving DecidableEq

structure Leaf where
  source : Source
  text : String

/-- A message content: strings, arrays and blocks. -/
inductive Content where
  | string (text : String)
  | array (items : List Content)
  | text (text : String)
  | thinking (thinking : String) (signature : Option String)
  | image (mediaType data : String)
  | toolUse (id name : String) (input : Value String)
  | toolResult (toolUseId content : String) (isError : Option Bool)
  | toolResultBlocks (toolUseId : String) (blocks : List Content) (isError : Option Bool)

def leaf (source : Source) (text : String) : Value Leaf := .string ⟨source, text⟩

/-- A key that a block may leave out. -/
def optional (key : String) : Option (Value Leaf) → List (String × Value Leaf)
  | some value => [(key, value)]
  | none => []

namespace Content

mutual

/-- The content as it is written, each of its strings with what it is. -/
def toJson : Content → Value Leaf
  | string s => leaf .text s
  | array items => .array (toJsonAll items)
  | text s => .object [("text", leaf .text s), ("type", leaf .other "text")]
  | thinking s signature => .object (optional "signature" (signature.map (leaf .other)) ++
      [("thinking", leaf .text s), ("type", leaf .other "thinking")])
  | image mediaType data => .object
      [("source", .object [("data", leaf .imageData data), ("media_type", leaf .other mediaType),
        ("type", leaf .other "base64")]), ("type", leaf .other "image")]
  | toolUse id name input => .object [("id", leaf .other id), ("input", input.map (Leaf.mk .other)),
      ("name", leaf .other name), ("type", leaf .other "tool_use")]
  | toolResult id s isError => .object ([("content", leaf .text s)] ++
      optional "is_error" (isError.map .bool) ++
      [("tool_use_id", leaf .other id), ("type", leaf .other "tool_result")])
  | toolResultBlocks id blocks isError => .object ([("content", .array (toJsonAll blocks))] ++
      optional "is_error" (isError.map .bool) ++
      [("tool_use_id", leaf .other id), ("type", leaf .other "tool_result")])

def toJsonAll : List Content → List (Value Leaf)
  | [] => []
  | c :: cs => c.toJson :: toJsonAll cs

end

/-- The value that the extraction is given. -/
def value (c : Content) : Value String := c.toJson.map Leaf.text

mutual

/-- The texts of a content that are not blank, in document order. -/
def texts : Content → List Leaf
  | string s | text s | thinking s _ | toolResult _ s _ => nonBlank Leaf.text ⟨.text, s⟩
  | array items => textsAll items
  | image _ _ | toolUse _ _ _ => []
  | toolResultBlocks _ blocks _ => textsAll blocks

def textsAll : List Content → List Leaf
  | [] => []
  | c :: cs => c.texts ++ textsAll cs

end

mutual

/-- The content without its blocks of tools. -/
def withoutTools : Content → Option Content
  | array items => some (array (withoutToolsAll items))
  | toolUse _ _ _ | toolResult _ _ _ | toolResultBlocks _ _ _ => none
  | c => some c

def withoutToolsAll : List Content → List Content
  | [] => []
  | c :: cs => c.withoutTools.toList ++ withoutToolsAll cs

end

mutual

/-- No image outside of tool results has data, and no blocks in a tool result have a text. -/
def Kept : Content → Prop
  | array items => KeptAll items
  | image _ data => trim data = ""
  | toolResultBlocks _ blocks _ => textsAll blocks = []
  | _ => True

def KeptAll : List Content → Prop
  | [] => True
  | c :: cs => c.Kept ∧ KeptAll cs

end

/-- What the extraction picks up of a content. -/
def pushed (c : Content) : List Leaf := visit Leaf.text true c.toJson

/-- The extraction has every text, once and in order, and no data of an image; and without tools
it is the extraction of the content without them. -/
def Faithful (c : Content) : Prop :=
  extractExternalTextFromJson c.value true = join "\n" (c.pushed.map fun l => trim l.text) ∧
    (c.pushed.filter fun l => l.source = .text) = c.texts ∧
    (∀ l ∈ c.pushed, l.source ≠ .imageData) ∧
    extractExternalTextFromJson c.value false =
      (c.withoutTools.map fun d => extractExternalTextFromJson d.value true).getD ""

end Content

attribute [local grind =] Value.getStr body isTool visit Content.toJson

/-! ### What a string is does not matter -/

section
variable {text : τ → String} {includeTools : Bool}

theorem getStr_mapFields (g : σ → τ) (key : String) (fields : List (String × Value σ)) :
    Value.getStr key (Value.mapFields g fields) = (Value.getStr key fields).map g := by
  induction fields with
  | nil => rfl
  | cons field fields ih =>
      obtain ⟨k, value⟩ := field
      rw [Value.mapFields, Value.getStr, Value.getStr]
      split
      · cases value <;> rfl
      · exact ih

theorem nonBlank_map (g : σ → τ) (s : σ) :
    nonBlank text (g s) = (nonBlank (text ∘ g) s).map g := by
  rw [nonBlank, nonBlank, Function.comp_apply]
  split
  · rfl
  · rfl

theorem isTool_mapFields (g : σ → τ) (fields : List (String × Value σ)) :
    isTool text (Value.mapFields g fields) = isTool (text ∘ g) fields := by
  rw [isTool, isTool, getStr_mapFields, Option.map_map]

theorem body_mapFields (g : σ → τ) (fields : List (String × Value σ)) :
    body text includeTools (Value.mapFields g fields) =
      (body (text ∘ g) includeTools fields).map g := by
  rw [body, body, getStr_mapFields, getStr_mapFields]
  cases Value.getStr "text" fields with
  | some s => exact nonBlank_map g s
  | none =>
      cases includeTools with
      | false => rfl
      | true =>
          cases Value.getStr "content" fields with
          | none => rfl
          | some s => exact nonBlank_map g s

mutual

/-- **What is picked up** of a value, whatever its strings are. -/
theorem visit_map (g : σ → τ) : ∀ value : Value σ,
    visit text includeTools (value.map g) = (visit (text ∘ g) includeTools value).map g
  | .null | .bool _ | .number _ => rfl
  | .string s => nonBlank_map g s
  | .array items => visitItems_map g items
  | .object fields => by
      rw [Value.map, visit, visit, isTool_mapFields, body_mapFields, visitFields_map g fields]
      split
      · rfl
      · rw [List.map_append]

theorem visitItems_map (g : σ → τ) : ∀ items : List (Value σ),
    visitItems text includeTools (Value.mapItems g items) =
      (visitItems (text ∘ g) includeTools items).map g
  | [] => rfl
  | item :: items => by
      rw [Value.mapItems, visitItems, visitItems, visit_map g item, visitItems_map g items,
        List.map_append]

theorem visitFields_map (g : σ → τ) : ∀ fields : List (String × Value σ),
    visitFields text includeTools (Value.mapFields g fields) =
      (visitFields (text ∘ g) includeTools fields).map g
  | [] => rfl
  | (key, nested) :: fields => by
      rw [Value.mapFields, visitFields, visitFields, visit_map g nested, visitFields_map g fields,
        List.map_append]
      split
      · rfl
      · rfl

end

end

theorem extract_value (c : Content) (includeTools : Bool) :
    extractExternalTextFromJson c.value includeTools =
      join "\n" ((visit Leaf.text includeTools c.toJson).map fun l => trim l.text) := by
  rw [extractExternalTextFromJson, Content.value, visit_map, List.map_map]
  rfl

/-! ### Without tools -/

namespace Content

theorem visit_text (includeTools : Bool) (s : String) :
    visit Leaf.text includeTools (text s).toJson = nonBlank Leaf.text ⟨.text, s⟩ := by
  simp [toJson, leaf, visit, visitFields, body, isTool, Value.getStr, Value.asStr]

theorem visit_thinking (includeTools : Bool) (s : String) (signature : Option String) :
    visit Leaf.text includeTools (thinking s signature).toJson =
      ((signature.map fun t => nonBlank Leaf.text ⟨.other, t⟩).getD []) ++
        nonBlank Leaf.text ⟨.text, s⟩ := by
  cases signature <;>
    simp [toJson, leaf, optional, visit, visitFields, body, isTool, Value.getStr, Value.asStr]

theorem visit_image (includeTools : Bool) (mediaType data : String) :
    visit Leaf.text includeTools (image mediaType data).toJson =
      nonBlank Leaf.text ⟨.imageData, data⟩ ++ nonBlank Leaf.text ⟨.other, mediaType⟩ := by
  simp [toJson, leaf, visit, visitFields, body, isTool, Value.getStr, Value.asStr]

theorem pushed_toolUse (id name : String) (input : Value String) :
    (toolUse id name input).pushed = nonBlank Leaf.text ⟨.other, id⟩ ++
      (visit (Leaf.text ∘ Leaf.mk .other) true input).map (Leaf.mk .other) ++
        nonBlank Leaf.text ⟨.other, name⟩ := by
  simp [pushed, toJson, leaf, visit, visitFields, body, isTool, Value.getStr, Value.asStr, visit_map]

theorem pushed_toolResult (id s : String) (isError : Option Bool) :
    (toolResult id s isError).pushed =
      nonBlank Leaf.text ⟨.text, s⟩ ++ nonBlank Leaf.text ⟨.other, id⟩ := by
  cases isError <;>
    simp [pushed, toJson, leaf, optional, visit, visitFields, body, isTool, Value.getStr,
      Value.asStr]

/-- The blocks of a tool result are passed over. -/
theorem pushed_toolResultBlocks (id : String) (blocks : List Content) (isError : Option Bool) :
    (toolResultBlocks id blocks isError).pushed = nonBlank Leaf.text ⟨.other, id⟩ := by
  cases isError <;>
    simp [pushed, toJson, leaf, optional, visit, visitFields, body, isTool, Value.getStr,
      Value.asStr]

theorem visit_tool (fields : List (String × Value Leaf)) (h : isTool Leaf.text fields = true) :
    visit Leaf.text false (.object fields) = [] := by
  rw [visit, h]
  rfl

mutual

/-- **Without tools**, what is picked up is what there is without them. -/
theorem visit_false : ∀ c : Content, visit Leaf.text false c.toJson =
    (c.withoutTools.map fun d => d.pushed).getD []
  | string _ => rfl
  | array items => visit_false_all items
  | text s => (visit_text false s).trans (visit_text true s).symm
  | thinking s signature => (visit_thinking false s signature).trans
      (visit_thinking true s signature).symm
  | image mediaType data => (visit_image false mediaType data).trans
      (visit_image true mediaType data).symm
  | toolUse _ _ _ => visit_tool _ rfl
  | toolResult _ _ isError => visit_tool _ (by cases isError <;> rfl)
  | toolResultBlocks _ _ isError => visit_tool _ (by cases isError <;> rfl)

theorem visit_false_all : ∀ cs : List Content, visitItems Leaf.text false (toJsonAll cs) =
    visitItems Leaf.text true (toJsonAll (withoutToolsAll cs))
  | [] => rfl
  | c :: cs => by
      rw [toJsonAll, visitItems, visit_false c, visit_false_all cs, withoutToolsAll]
      cases c.withoutTools with
      | none => rfl
      | some d => rfl

end

/-! ### The texts, and not the data -/

/-- Of what is picked up, the texts are these, and nothing is the data of an image. -/
def Picks (picked texts : List Leaf) : Prop :=
  (picked.filter fun l => l.source = .text) = texts ∧ ∀ l ∈ picked, l.source ≠ .imageData

theorem picks_append_iff {a b s t : List Leaf}
    (ha : List.Sublist (a.filter fun l => l.source = .text) s)
    (hb : List.Sublist (b.filter fun l => l.source = .text) t) :
    Picks (a ++ b) (s ++ t) ↔ Picks a s ∧ Picks b t := by
  simp only [Picks, List.filter_append, List.forall_mem_append]
  constructor
  · rintro ⟨heq, hdata, hdata'⟩
    have hlen := congrArg List.length heq
    simp only [List.length_append] at hlen
    have hle := ha.length_le
    have hle' := hb.length_le
    exact ⟨⟨ha.eq_of_length (by omega), hdata⟩, ⟨hb.eq_of_length (by omega), hdata'⟩⟩
  · rintro ⟨⟨rfl, hdata⟩, rfl, hdata'⟩
    exact ⟨rfl, hdata, hdata'⟩

theorem picks_text (s : String) :
    Picks (nonBlank Leaf.text ⟨.text, s⟩) (nonBlank Leaf.text ⟨.text, s⟩) := by
  rw [nonBlank]
  split
  · exact ⟨rfl, nofun⟩
  · exact ⟨rfl, List.forall_mem_singleton.mpr nofun⟩

theorem picks_of_other {picked : List Leaf} (h : ∀ l ∈ picked, l.source = .other) :
    Picks picked [] := by
  constructor
  · rw [List.filter_eq_nil_iff]
    intro l hl
    simp [h l hl]
  · intro l hl
    rw [h l hl]
    nofun

theorem picks_other (s : String) : Picks (nonBlank Leaf.text ⟨.other, s⟩) [] := by
  refine picks_of_other fun l hl => ?_
  rw [nonBlank] at hl
  split at hl
  · cases hl
  · rw [List.mem_singleton.mp hl]

theorem picks_data_iff (s : String) :
    Picks (nonBlank Leaf.text ⟨.imageData, s⟩) [] ↔ trim s = "" := by
  rw [nonBlank]
  split
  · next h => exact iff_of_true ⟨rfl, nofun⟩ h
  · next h => exact iff_of_false (fun hp => hp.2 _ List.mem_cons_self rfl) h

theorem Picks.sublist {picked texts : List Leaf} (h : Picks picked texts) :
    List.Sublist (picked.filter fun l => l.source = .text) texts := by
  rw [h.1]

/-- What comes with a text that is no text and no data. -/
theorem Picks.append {a b s t : List Leaf} (ha : Picks a s) (hb : Picks b t) :
    Picks (a ++ b) (s ++ t) := (picks_append_iff ha.sublist hb.sublist).mpr ⟨ha, hb⟩

theorem picks_thinking (s : String) (signature : Option String) :
    Picks (thinking s signature).pushed (thinking s signature).texts := by
  rw [pushed, visit_thinking]
  cases signature with
  | none => exact picks_text s
  | some t => exact (picks_other t).append (picks_text s)

theorem picks_toolUse (id name : String) (input : Value String) :
    Picks (toolUse id name input).pushed [] := by
  rw [pushed_toolUse]
  refine ((picks_other id).append (picks_of_other fun l hl => ?_)).append (picks_other name)
  obtain ⟨s, -, rfl⟩ := List.mem_map.mp hl
  rfl

mutual

/-- **The texts, and not the data, are picked up** where nothing of either kind is in the way. -/
theorem pushed_iff : ∀ c : Content,
    List.Sublist (c.pushed.filter fun l => l.source = .text) c.texts ∧
      (Picks c.pushed c.texts ↔ c.Kept)
  | string s => ⟨(picks_text s).sublist, iff_of_true (picks_text s) trivial⟩
  | array items => pushed_iff_all items
  | text s => by
      have h : Picks (text s).pushed (text s).texts := by
        rw [pushed, visit_text]
        exact picks_text s
      exact ⟨h.sublist, iff_of_true h trivial⟩
  | thinking s signature =>
      ⟨(picks_thinking s signature).sublist, iff_of_true (picks_thinking s signature) trivial⟩
  | image mediaType data => by
      have hnone : List.Sublist ((nonBlank Leaf.text ⟨.imageData, data⟩).filter
          fun l => l.source = .text) [] := by
        rw [nonBlank]
        split
        · exact List.Sublist.refl _
        · exact List.Sublist.refl _
      have hmedia := picks_other mediaType
      have hpicks := picks_append_iff hnone hmedia.sublist
      rw [pushed, visit_image]
      constructor
      · rw [List.filter_append]
        exact hnone.append hmedia.sublist
      · exact hpicks.trans ((and_iff_left hmedia).trans (picks_data_iff data))
  | toolUse id name input =>
      ⟨(picks_toolUse id name input).sublist, iff_of_true (picks_toolUse id name input) trivial⟩
  | toolResult id s isError => by
      have h : Picks (toolResult id s isError).pushed (toolResult id s isError).texts := by
        have happend := (picks_text s).append (picks_other id)
        rw [List.append_nil] at happend
        rw [pushed_toolResult]
        exact happend
      exact ⟨h.sublist, iff_of_true h trivial⟩
  | toolResultBlocks id blocks isError => by
      obtain ⟨hnone, hother⟩ := picks_other id
      rw [pushed_toolResultBlocks, Picks, hnone, texts, Kept]
      refine ⟨List.nil_sublist _, ?_⟩
      constructor
      · rintro ⟨hblocks, -⟩
        exact hblocks.symm
      · intro hblocks
        exact ⟨hblocks.symm, hother⟩

theorem pushed_iff_all : ∀ cs : List Content,
    List.Sublist ((visitItems Leaf.text true (toJsonAll cs)).filter fun l => l.source = .text)
      (textsAll cs) ∧
      (Picks (visitItems Leaf.text true (toJsonAll cs)) (textsAll cs) ↔ KeptAll cs)
  | [] => ⟨List.Sublist.refl _, iff_of_true ⟨rfl, nofun⟩ trivial⟩
  | c :: cs => by
      obtain ⟨hsub, hiff⟩ := pushed_iff c
      obtain ⟨hsub', hiff'⟩ := pushed_iff_all cs
      rw [toJsonAll, visitItems, textsAll, KeptAll, ← hiff, ← hiff', List.filter_append]
      exact ⟨hsub.append hsub', picks_append_iff hsub hsub'⟩

end

end Content

/-- **The extraction is faithful exactly where** no image outside of tool results has data and no
blocks in a tool result have a text. -/
theorem extract_exact (c : Content) : c.Faithful ↔ c.Kept := by
  have hpushed := extract_value c true
  have hfalse : extractExternalTextFromJson c.value false =
      (c.withoutTools.map fun d => extractExternalTextFromJson d.value true).getD "" := by
    rw [extract_value, Content.visit_false]
    cases c.withoutTools with
    | none => rfl
    | some d => exact (extract_value d true).symm
  rw [← (Content.pushed_iff c).2]
  constructor
  · rintro ⟨-, htexts, hdata, -⟩
    exact ⟨htexts, hdata⟩
  · rintro ⟨htexts, hdata⟩
    exact ⟨hpushed, htexts, hdata, hfalse⟩

theorem nonBlank_eq {s : String} {c : Char} (source : Source) (hc : c ∈ s.toList)
    (hvisible : isWhitespace c = false) : nonBlank Leaf.text ⟨source, s⟩ = [⟨source, s⟩] := by
  rw [nonBlank, if_neg]
  intro hblank
  rw [trim_eq_empty_iff.mp hblank c hc] at hvisible
  cases hvisible

/-- The text of a block in a tool result is lost, and the data of an image is picked up. -/
theorem extract_unfaithful :
    (Content.toolResultBlocks "toolu_1" [.text "hello world"] none).pushed =
        [⟨.other, "toolu_1"⟩] ∧
      ¬ (Content.toolResultBlocks "toolu_1" [.text "hello world"] none).Faithful ∧
      ¬ (Content.image "image/png" "iVBORw0KGgo").Faithful := by
  refine ⟨?_, ?_, ?_⟩
  · rw [Content.pushed_toolResultBlocks]
    exact nonBlank_eq (c := 't') .other (by simp) rfl
  · rintro ⟨-, htexts, hdata, -⟩
    have hkept := (Content.pushed_iff _).2.mp ⟨htexts, hdata⟩
    have hhello : nonBlank Leaf.text ⟨.text, "hello world"⟩ = [⟨.text, "hello world"⟩] :=
      nonBlank_eq (c := 'h') .text (by simp) rfl
    rw [Content.Kept, Content.textsAll, Content.texts, hhello] at hkept
    cases hkept
  · rintro ⟨-, htexts, hdata, -⟩
    have hkept := (Content.pushed_iff _).2.mp ⟨htexts, hdata⟩
    have hpng : isWhitespace 'i' = true := trim_eq_empty_iff.mp hkept 'i' (by simp)
    cases hpng

end Jcode.Import.External
