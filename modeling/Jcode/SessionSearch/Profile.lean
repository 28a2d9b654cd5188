import Jcode.Support.Std

/-!
# SessionSearch — the query profile

`SessionSearchQueryProfile` of `jcode-session-types`: a query in lower case, the terms it is searched
by and how many of them a text has to have.  Which characters are alphanumeric and what they are in
lower case is a parameter.

* `Unicode.lowercase_append`: a text is put into lower case part by part.
* `tokenize_nodup`: no term is listed twice.
* `new_minTermMatches_pos`: a query with terms asks for one of them at least.
-/

namespace Jcode.SessionSearch
open Rust

/-- What the source asks of Unicode. -/
structure Unicode where
  /-- `char::is_alphanumeric`. -/
  isAlphanumeric : Char → Bool
  /-- What a character becomes in lower case, from what stands before it and after it. -/
  lowerAt : List Char → Char → List Char → List Char

/-- What Unicode says of the characters of ASCII. -/
def ascii : Unicode := ⟨Char.isAlphanum, fun _ c _ => [c.toLower]⟩

/-- The lower case of a part of a text, from what stands before it and after it. -/
def Unicode.lowercase (u : Unicode) : List Char → List Char → List Char → List Char
  | _, [], _ => []
  | before, c :: cs, after => u.lowerAt before c (cs ++ after) ++ u.lowercase (before ++ [c]) cs after

/-- `str::to_lowercase`. -/
def Unicode.toLowercase (u : Unicode) (s : String) : String :=
  String.ofList (u.lowercase [] s.toList [])

def stopWords : List String :=
  ["a", "an", "and", "are", "as", "at", "be", "but", "by", "for", "from", "how", "i", "in", "into",
    "is", "it", "my", "of", "on", "or", "our", "that", "the", "their", "this", "to", "we", "what",
    "when", "where", "which", "with", "you", "your"]

/-- `is_session_search_stop_word`. -/
def isSessionSearchStopWord (token : String) : Bool := stopWords.contains token

/-- The part of the loop of `tokenize_session_search_query` that is about one piece of the query. -/
def tokenizeStep (u : Unicode) (terms : List String) (token : List Char) : List String :=
  if token = [] then terms
  else
    let token := u.toLowercase (String.ofList token)
    if isSessionSearchStopWord token then terms
    else
      let keep := 2 ≤ token.length || token.toList.all Char.isDigit
      if keep && !terms.contains token then terms ++ [token] else terms

/-- `tokenize_session_search_query`. -/
def tokenizeSessionSearchQuery (u : Unicode) (query : String) : List String :=
  (query.toList.splitOnP fun c => !u.isAlphanumeric c).foldl (tokenizeStep u) []

/-- `minimum_session_search_term_matches`. -/
def minimumSessionSearchTermMatches : ℕ → ℕ
  | 0 => 0
  | 1 => 1
  | 2 => 2
  | 3 | 4 | 5 => 2
  | _ => 3

structure SessionSearchQueryProfile where
  normalized : String
  terms : List String
  minTermMatches : ℕ

namespace SessionSearchQueryProfile

/-- `SessionSearchQueryProfile::new`. -/
def new (u : Unicode) (query : String) : SessionSearchQueryProfile :=
  let normalized := u.toLowercase (trim query)
  let terms := tokenizeSessionSearchQuery u normalized
  ⟨normalized, terms, minimumSessionSearchTermMatches terms.length⟩

def isActionable (query : SessionSearchQueryProfile) : Bool :=
  query.normalized ≠ "" && query.terms ≠ []

end SessionSearchQueryProfile

/-- A text is put into lower case part by part. -/
theorem Unicode.lowercase_append (u : Unicode) (before xs ys after : List Char) :
    u.lowercase before (xs ++ ys) after =
      u.lowercase before xs (ys ++ after) ++ u.lowercase (before ++ xs) ys after := by
  induction xs generalizing before with
  | nil => rw [List.append_nil]; rfl
  | cons c cs ih =>
      rw [List.cons_append, Unicode.lowercase, ih, Unicode.lowercase, List.append_assoc,
        List.append_assoc, List.append_assoc]
      rfl

theorem tokenizeStep_nodup (u : Unicode) {terms : List String} (h : terms.Nodup)
    (token : List Char) : (tokenizeStep u terms token).Nodup := by
  rw [tokenizeStep]
  split
  · exact h
  · dsimp only
    split
    · exact h
    · split
      · next hkeep =>
          rw [Bool.and_eq_true, Bool.not_eq_true', List.contains_eq_mem, decide_eq_false_iff_not]
            at hkeep
          rw [← List.concat_eq_append]
          exact h.concat hkeep.2
      · exact h

/-- No term is listed twice. -/
theorem tokenize_nodup (u : Unicode) (query : String) :
    (tokenizeSessionSearchQuery u query).Nodup := by
  rw [tokenizeSessionSearchQuery]
  generalize query.toList.splitOnP _ = pieces
  refine List.foldlRecOn pieces (tokenizeStep u) List.nodup_nil fun terms h token _ => ?_
  exact tokenizeStep_nodup u h token

/-- A query with terms asks for one of them at least. -/
theorem minimum_pos {n : ℕ} (h : 0 < n) : 0 < minimumSessionSearchTermMatches n := by
  match n with
  | 1 | 2 | 3 | 4 | 5 => decide
  | n + 6 => exact Nat.succ_pos 2

theorem new_minTermMatches_pos (u : Unicode) (query : String)
    (h : (SessionSearchQueryProfile.new u query).terms ≠ []) :
    0 < (SessionSearchQueryProfile.new u query).minTermMatches := by
  rw [SessionSearchQueryProfile.new] at h ⊢
  dsimp only at h ⊢
  generalize tokenizeSessionSearchQuery u _ = terms at h ⊢
  exact minimum_pos (List.length_pos_iff.mpr h)

end Jcode.SessionSearch
