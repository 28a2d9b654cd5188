import Jcode.Dag.Types

/-!
# Dag — mentions of a node id

`mentions_node_id` of `jcode-plan/src/dag/ops.rs`: whether free text names a node id as a token of
its own.  A text is read by its characters: the source's byte offsets all lie at the start or
the end of an occurrence of `id`, which are character boundaries.
-/

namespace Jcode.Dag

/-- The characters of ids; anything else bounds a mention. -/
def isIdChar (c : Char) : Bool := c.isAlphanum || c == '-' || c == '_' || c == '.' || c == ':'

/-- The offset of the first occurrence of `pat`, as `str::find`. -/
def findStr (pat : List Char) : List Char → Option ℕ
  | [] => if pat.isEmpty then some 0 else none
  | c :: text => if pat.isPrefixOf (c :: text) then some 0 else (findStr pat text).map (· + 1)

/-- The `while` loop of `mentions_node_id`, from the offset `start`. -/
def mentionsFrom (text id : List Char) : ℕ → ℕ → Bool
  | 0, _ => false
  | fuel + 1, start =>
      match findStr id (text.drop start) with
      | none => false
      | some pos =>
          let begin' := start + pos
          let end' := begin' + id.length
          let beforeOk := begin' == 0 || !(text.take begin').getLast?.any isIdChar
          let afterOk :=
            match text.drop end' with
            | [] => true
            | c :: rest =>
                -- '.' and ':' continue the id only when an id character follows
                if c == '.' || c == ':' then !rest.head?.any isIdChar else !isIdChar c
          if beforeOk && afterOk then true
          else
            let start := begin' + 1
            if start ≥ text.length then false else mentionsFrom text id fuel start

/-- Whether `text` mentions the node id `id` as a standalone token.  Each pass of the loop moves
`start` past a character, so the text's length bounds the passes. -/
def mentionsNodeId (text id : String) : Bool :=
  if id.isEmpty then false
  else mentionsFrom text.toList id.toList (text.toList.length + 1) 0

end Jcode.Dag
