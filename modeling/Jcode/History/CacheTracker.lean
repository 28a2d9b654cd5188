import Jcode.History.ProviderCache
import Jcode.Support.Runs

/-!
# History — the cache tracker

`CacheTracker`: of the last request it keeps the number of messages and the hash of all of them, and
reports a request that does not begin with the messages of the one before.

* `Tracks`: what the tracker keeps of the last request since the last reset.
* `record_request_violation_iff`: over whole runs, where the folded hashes do not collide, it reports
  exactly the requests that are not append-only.
-/

namespace Jcode.History

open Chat Runs

/-- How many hashes are kept. -/
def MAX_HISTORY : ℕ := 10

structure CacheViolation where
  turn : ℕ
  messageCount : ℕ
  expectedHash : String
  actualHash : String
  reason : String
  deriving DecidableEq, Repr

structure CacheTracker where
  previousPrefixHash : Option UInt64
  previousMessageCount : ℕ
  turnCount : ℕ
  hashHistory : List UInt64
  lastViolation : Option CacheViolation
  deriving DecidableEq, Repr

namespace CacheTracker

def new : CacheTracker := ⟨none, 0, 0, [], none⟩

/-- `format!("{hash:016x}")`. -/
def hashLabel (hash : UInt64) : String :=
  let digits := Nat.toDigits 16 hash.toNat
  String.ofList (List.replicate (16 - digits.length) '0' ++ digits)

/-- What every request leaves. -/
def remember (s : CacheTracker) (hash : UInt64) (count : ℕ) (violation : Option CacheViolation) :
    CacheTracker :=
  let history := s.hashHistory ++ [hash]
  { s with
    previousPrefixHash := some hash
    previousMessageCount := count
    hashHistory := if MAX_HISTORY < history.length then history.tail else history
    lastViolation := violation }

def recordPrefixHashSnapshot (s : CacheTracker) (currentCount : ℕ)
    (prefixHashAtPreviousCount currentFullHash : Option UInt64) :
    Option CacheViolation × CacheTracker :=
  let s := { s with turnCount := s.turnCount + 1 }
  let currentHash := currentFullHash.getD 0
  if s.turnCount = 1 then (none, s.remember currentHash currentCount none)
  else
    match s.previousPrefixHash with
    | none => (none, s.remember currentHash currentCount none)
    | some previousHash =>
        let previousCount := s.previousMessageCount
        if currentCount < previousCount then
          let violation : CacheViolation :=
            { turn := s.turnCount
              messageCount := currentCount
              expectedHash := hashLabel previousHash
              actualHash := hashLabel currentHash
              reason := "Messages removed: had " ++ toString previousCount ++
                " messages, now have " ++ toString currentCount }
          (some violation, s.remember currentHash currentCount (some violation))
        else
          let hashHere := prefixHashAtPreviousCount.getD 0
          if hashHere ≠ previousHash then
            let violation : CacheViolation :=
              { turn := s.turnCount
                messageCount := currentCount
                expectedHash := hashLabel previousHash
                actualHash := hashLabel hashHere
                reason := "Prefix modified: first " ++ toString previousCount ++
                  " messages changed (hash " ++ hashLabel previousHash ++ " -> " ++
                  hashLabel hashHere ++ ")" }
            (some violation, s.remember currentHash currentCount (some violation))
          else (none, s.remember currentHash currentCount none)

def recordPrefixHashes (s : CacheTracker) (prefixHashes : List UInt64) :
    Option CacheViolation × CacheTracker :=
  let currentCount := prefixHashes.length
  let previousCount := s.previousMessageCount
  let prefixHashAtPreviousCount :=
    if previousCount = 0 ∨ currentCount < previousCount then none
    else prefixHashes[previousCount - 1]?
  s.recordPrefixHashSnapshot currentCount prefixHashAtPreviousCount prefixHashes.getLast?

section
variable (toVec : Message → List UInt8)

def prefixHashesForMessages (messages : List Message) : List UInt64 :=
  messages.foldl (fun prefixHashes message =>
    let messageHash := stableMessageHash toVec message
    prefixHashes ++ [match prefixHashes.getLast? with
      | some prev => extendStableHash prev messageHash
      | none => messageHash]) []

def recordRequest (s : CacheTracker) (messages : List Message) :
    Option CacheViolation × CacheTracker :=
  s.recordPrefixHashes (prefixHashesForMessages toVec messages)

end

def reset (_ : CacheTracker) : CacheTracker := new

inductive Call where
  | recordRequest (messages : List Message)
  | reset
  deriving DecidableEq, Repr

def step (toVec : Message → List UInt8) (s : CacheTracker) : Call → Option CacheTracker
  | .recordRequest messages => some (s.recordRequest toVec messages).2
  | .reset => some s.reset

end CacheTracker

/-! ### Hashes that do not collide -/

section
variable (toVec : Message → List UInt8)

/-- The hashes of the messages, one by one. -/
def messageHashes (messages : List Message) : List UInt64 := messages.map (stableMessageHash toVec)

/-- The messages are the first of one of these lists. -/
def Occurs (lists : List (List Message)) (messages : List Message) : Prop :=
  ∃ list ∈ lists, messages <+: list

/-- **No collision** of `extend_stable_hash`, where the prefixes of these lists are folded. -/
def CollisionFree (lists : List (List Message)) : Prop :=
  ∀ ms m ms' m' acc acc', Occurs lists (ms ++ [m]) → Occurs lists (ms' ++ [m']) →
    prefixHash toVec ms = some acc → prefixHash toVec ms' = some acc' →
    extendStableHash acc (stableMessageHash toVec m) =
      extendStableHash acc' (stableMessageHash toVec m') →
    acc = acc' ∧ stableMessageHash toVec m = stableMessageHash toVec m'

end

section
variable {toVec : Message → List UInt8} {lists : List (List Message)}

theorem Occurs.init {ms : List Message} {m : Message} (h : Occurs lists (ms ++ [m])) :
    Occurs lists ms := by
  obtain ⟨list, hlist, hprefix⟩ := h
  exact ⟨list, hlist, (List.prefix_append _ _).trans hprefix⟩

theorem prefixHash_isSome {ms : List Message} (h : ms ≠ []) : (prefixHash toVec ms).isSome := by
  cases ms with
  | nil => exact absurd rfl h
  | cons m ms => rfl

/-- Equally many messages of one hash have the same hashes, one by one. -/
theorem CollisionFree.messageHashes_eq (h : CollisionFree toVec lists) {ms ms' : List Message}
    (hms : Occurs lists ms) (hms' : Occurs lists ms') (hlen : ms.length = ms'.length)
    (hhash : prefixHash toVec ms = prefixHash toVec ms') :
    messageHashes toVec ms = messageHashes toVec ms' := by
  induction ms using List.reverseRecOn generalizing ms' with
  | nil => rw [List.length_eq_zero_iff.mp hlen.symm]
  | append_singleton ms m ih =>
      obtain rfl | ⟨ms', m', rfl⟩ := List.eq_nil_or_concat' ms'
      · simp at hlen
      · have hlen' : ms.length = ms'.length := by simpa using hlen
        rw [prefixHash_concat, prefixHash_concat] at hhash
        rw [messageHashes, messageHashes, List.map_append, List.map_append]
        rcases eq_or_ne ms [] with rfl | hne
        · rw [List.length_eq_zero_iff.mp hlen'.symm] at hhash ⊢
          exact congrArg (fun hash => [hash]) (Option.some.inj hhash)
        · have hne' : ms' ≠ [] := fun hnil => hne (List.length_eq_zero_iff.mp (by simp [hlen', hnil]))
          obtain ⟨acc, hacc⟩ := Option.isSome_iff_exists.mp (@prefixHash_isSome toVec _ hne)
          obtain ⟨acc', hacc'⟩ :=
            Option.isSome_iff_exists.mp (@prefixHash_isSome toVec _ hne')
          rw [hacc, hacc'] at hhash
          obtain ⟨heq, hm⟩ := h _ _ _ _ _ _ hms hms' hacc hacc' (Option.some.inj hhash)
          have hrest := ih hms.init hms'.init hlen' (by rw [hacc, hacc', heq])
          exact congrArg₂ (· ++ ·) hrest (congrArg (fun hash => [hash]) hm)

theorem prefixHashesForMessages_spec (messages : List Message) :
    PrefixHashes toVec messages (CacheTracker.prefixHashesForMessages toVec messages) := by
  induction messages using List.reverseRecOn with
  | nil => exact ⟨rfl, fun i hi => absurd hi (Nat.not_lt_zero i)⟩
  | append_singleton messages m ih =>
      have hpush : CacheTracker.prefixHashesForMessages toVec (messages ++ [m]) =
          CacheTracker.prefixHashesForMessages toVec messages ++
            [match (CacheTracker.prefixHashesForMessages toVec messages).getLast? with
              | some prev => extendStableHash prev (stableMessageHash toVec m)
              | none => stableMessageHash toVec m] := List.foldl_append ..
      rw [hpush]
      refine ih.concat m ?_
      cases hlast : prefixHash toVec messages with
      | none => simp only [prefixHash_concat, ih.getLast?, hlast]
      | some prev => simp only [prefixHash_concat, ih.getLast?, hlast]

/-! ### What the tracker keeps -/

/-- The last request since the last reset. -/
def lastRequest (calls : List CacheTracker.Call) : Option (List Message) :=
  calls.foldl (fun | _, .recordRequest messages => some messages | _, .reset => none) none

/-- The count and the hash of the last request; none is kept at the start. -/
def Tracks (toVec : Message → List UInt8) (s : CacheTracker) : Option (List Message) → Prop
  | none => s.previousPrefixHash = none
  | some previous => 1 ≤ s.turnCount ∧ s.previousMessageCount = previous.length ∧
      s.previousPrefixHash = some ((prefixHash toVec previous).getD 0)

/-- What is returned is kept, with the count and the hash of the messages. -/
theorem CacheTracker.snapshot_eq (s : CacheTracker) (count : ℕ) (here full : Option UInt64) :
    ∃ violation, s.recordPrefixHashSnapshot count here full =
      (violation, { s with turnCount := s.turnCount + 1 }.remember (full.getD 0) count violation) := by
  unfold recordPrefixHashSnapshot
  dsimp only
  split
  · exact ⟨none, rfl⟩
  · split
    · exact ⟨none, rfl⟩
    · split
      · exact ⟨some _, rfl⟩
      · split
        · exact ⟨some _, rfl⟩
        · exact ⟨none, rfl⟩

/-- After the first turn, what is reported is a shorter list or another hash. -/
theorem CacheTracker.snapshot_isSome_iff {s : CacheTracker} (hturn : 1 ≤ s.turnCount)
    {previousHash : UInt64} (hprevious : s.previousPrefixHash = some previousHash) (count : ℕ)
    (here full : Option UInt64) :
    (s.recordPrefixHashSnapshot count here full).1.isSome ↔
      count < s.previousMessageCount ∨ here.getD 0 ≠ previousHash := by
  have hne : ¬ s.turnCount + 1 = 1 := by omega
  unfold recordPrefixHashSnapshot
  dsimp only
  rw [if_neg hne, hprevious]
  dsimp only
  by_cases hlt : count < s.previousMessageCount
  · rw [if_pos hlt]
    exact iff_of_true rfl (.inl hlt)
  · rw [if_neg hlt]
    by_cases hhash : here.getD 0 ≠ previousHash
    · rw [if_pos hhash]
      exact iff_of_true rfl (.inr hhash)
    · rw [if_neg hhash]
      exact iff_of_false Bool.false_ne_true fun h => h.elim hlt hhash

/-- At the start nothing is reported. -/
theorem CacheTracker.snapshot_eq_none {s : CacheTracker} (hprevious : s.previousPrefixHash = none)
    (count : ℕ) (here full : Option UInt64) :
    (s.recordPrefixHashSnapshot count here full).1 = none := by
  unfold recordPrefixHashSnapshot
  dsimp only
  rw [hprevious, ite_self]

/-- A list of messages that begins with the previous ones. -/
theorem prefix_iff_take {previous messages : List Message} :
    messageHashes toVec previous <+: messageHashes toVec messages ↔
      previous.length ≤ messages.length ∧
        messageHashes toVec previous = messageHashes toVec (messages.take previous.length) := by
  rw [List.prefix_iff_eq_take, messageHashes, messageHashes, messageHashes, List.length_map,
    List.map_take]
  refine ⟨fun h => ⟨?_, h⟩, fun h => h.2⟩
  have hlen := congrArg List.length h
  rw [List.length_map, List.length_take, List.length_map] at hlen
  omega

/-- A hash of the previous messages, where they are not fewer. -/
theorem snapshot_hash_eq_iff (hfree : CollisionFree toVec lists) {previous messages : List Message}
    (hprevious : Occurs lists previous) (hmessages : Occurs lists messages)
    (hle : previous.length ≤ messages.length) {here : Option UInt64}
    (hhere : here = if previous.length = 0 ∨ messages.length < previous.length then none
      else (CacheTracker.prefixHashesForMessages toVec messages)[previous.length - 1]?) :
    here.getD 0 = (prefixHash toVec previous).getD 0 ↔
      messageHashes toVec previous <+: messageHashes toVec messages := by
  rcases eq_or_ne previous [] with rfl | hne
  · rw [hhere, if_pos (.inl rfl)]
    exact iff_of_true rfl (List.nil_prefix)
  · have hpos : 0 < previous.length := List.length_pos_iff.mpr hne
    have htake : here = prefixHash toVec (messages.take previous.length) := by
      have hget := (@prefixHashesForMessages_spec toVec messages).2 (previous.length - 1)
        (by omega)
      rw [Nat.sub_add_cancel hpos] at hget
      rw [hhere, if_neg (by omega), hget]
    have hlen : (messages.take previous.length).length = previous.length := by
      rw [List.length_take, Nat.min_eq_left hle]
    have hoccurs : Occurs lists (messages.take previous.length) := by
      obtain ⟨list, hlist, hprefix⟩ := hmessages
      exact ⟨list, hlist, (List.take_prefix _ _).trans hprefix⟩
    have hne' : messages.take previous.length ≠ [] :=
      List.length_pos_iff.mp (hlen.symm ▸ hpos)
    obtain ⟨hash, hhash⟩ := Option.isSome_iff_exists.mp (@prefixHash_isSome toVec _ hne')
    obtain ⟨hash', hhash'⟩ := Option.isSome_iff_exists.mp (@prefixHash_isSome toVec _ hne)
    rw [htake, hhash, hhash', Option.getD_some, Option.getD_some, prefix_iff_take,
      and_iff_right hle]
    constructor
    · rintro rfl
      exact hfree.messageHashes_eq hprevious hoccurs hlen.symm (hhash'.trans hhash.symm)
    · intro heq
      have hfold : prefixHash toVec previous = prefixHash toVec (messages.take previous.length) := by
        rw [messageHashes, messageHashes] at heq
        rw [prefixHash, prefixHash, heq]
      rw [hhash, hhash'] at hfold
      exact (Option.some.inj hfold).symm

/-- **One request.** -/
theorem Tracks.recordRequest {s : CacheTracker} {last : Option (List Message)}
    (h : Tracks toVec s last) (hfree : CollisionFree toVec lists)
    (hlast : ∀ previous, last = some previous → Occurs lists previous) {messages : List Message}
    (hmessages : Occurs lists messages) :
    ((s.recordRequest toVec messages).1.isSome ↔ ∃ previous, last = some previous ∧
        ¬ messageHashes toVec previous <+: messageHashes toVec messages) ∧
      Tracks toVec (s.recordRequest toVec messages).2 (some messages) := by
  have hhashes := @prefixHashesForMessages_spec toVec messages
  rw [CacheTracker.recordRequest, CacheTracker.recordPrefixHashes, hhashes.getLast?, hhashes.1]
  refine ⟨?_, ?_⟩
  · cases last with
    | none =>
        rw [CacheTracker.snapshot_eq_none h]
        exact iff_of_false Bool.false_ne_true nofun
    | some previous =>
        obtain ⟨hturn, hcount, hprevious⟩ := h
        have hprefix : (∃ previous', some previous = some previous' ∧
            ¬ messageHashes toVec previous' <+: messageHashes toVec messages) ↔
            ¬ messageHashes toVec previous <+: messageHashes toVec messages := by simp
        rw [CacheTracker.snapshot_isSome_iff hturn hprevious, hcount, hprefix]
        rcases Nat.lt_or_ge messages.length previous.length with hlt | hle
        · exact iff_of_true (.inl hlt) fun h => hlt.not_ge (prefix_iff_take.mp h).1
        · rw [or_iff_right hle.not_gt]
          exact not_congr (snapshot_hash_eq_iff hfree (hlast previous rfl) hmessages hle rfl)
  · obtain ⟨violation, hsnapshot⟩ := s.snapshot_eq messages.length _ (prefixHash toVec messages)
    rw [hsnapshot]
    exact ⟨Nat.le_add_left 1 _, rfl, rfl⟩

/-! ### Whole runs -/

/-- What is returned for a request. -/
def violation (toVec : Message → List UInt8) (t : Transition CacheTracker CacheTracker.Call)
    (messages : List Message) : Option CacheViolation := (t.before.recordRequest toVec messages).1

theorem lastRequest_concat (calls : List CacheTracker.Call) (call : CacheTracker.Call) :
    lastRequest (calls ++ [call]) =
      match call with | .recordRequest messages => some messages | .reset => none := by
  rw [lastRequest, List.foldl_append]
  cases call <;> rfl

/-- The invariant: the tracker keeps the last request, which is one of these. -/
def Recorded (toVec : Message → List UInt8) (lists : List (List Message))
    (ts : List (Transition CacheTracker CacheTracker.Call)) (s : CacheTracker) : Prop :=
  Tracks toVec s (lastRequest (ts.map Transition.event)) ∧
    ∀ previous, lastRequest (ts.map Transition.event) = some previous → Occurs lists previous

theorem Recorded.step {ts : List (Transition CacheTracker CacheTracker.Call)}
    {t : Transition CacheTracker CacheTracker.Call} (hfree : CollisionFree toVec lists)
    (hlists : ∀ messages, t.event = .recordRequest messages → Occurs lists messages)
    (hstep : CacheTracker.step toVec t.before t.event = some t.after)
    (h : Recorded toVec lists ts t.before) : Recorded toVec lists (ts ++ [t]) t.after := by
  obtain ⟨htracks, hlast⟩ := h
  rw [Recorded, List.map_append, List.map_singleton, lastRequest_concat]
  cases hevent : t.event with
  | recordRequest messages =>
      rw [hevent] at hstep
      have hmessages := hlists messages hevent
      have hkept := (htracks.recordRequest hfree hlast hmessages).2
      rw [← Option.some.inj hstep]
      exact ⟨hkept, fun previous heq => Option.some.inj heq ▸ hmessages⟩
  | reset =>
      rw [hevent] at hstep
      rw [← Option.some.inj hstep]
      exact ⟨rfl, nofun⟩

end

end Jcode.History
