import Jcode.History.Persistence

/-!
# History — ProviderCache

The messages of a session as a provider receives them, kept beside the stored ones together with
the hash of each prefix.  A read brings the cache up to date: it makes it anew when the mode is
`full`, and appends what it lacks when the mode is `append`.

* `CacheTracks`: the invariant.  It is an instance of `Mirror.Tracks`, of the fold that fills the
  cache (`cacheOf`).
* `provider_messages_eq_uncached`: after any run a read gives the stored messages and their prefix
  hashes.
-/

namespace Jcode.History

open Chat Runs Mirror

section
variable (toVec : Message → List UInt8)

/-! ### The cache -/

/-- `push_provider_message_cache_entry`, on the messages and the prefix hashes. -/
def pushCacheEntry (cache : List Message × List UInt64) (message : Message) :
    List Message × List UInt64 :=
  let messageHash := stableMessageHash toVec message
  let prefixHash :=
    match cache.2.getLast? with
    | some prev => extendStableHash prev messageHash
    | none => messageHash
  (cache.1 ++ [message], cache.2 ++ [prefixHash])

/-- The entries of these messages, pushed in order. -/
def pushCacheEntries (cache : List Message × List UInt64) (messages : List StoredMessage) :
    List Message × List UInt64 :=
  messages.foldl (fun cache m => pushCacheEntry toVec cache m.toMessage) cache

namespace Session

def setProviderCache (s : Session) (cache : List Message × List UInt64) : Session :=
  { s with
    providerMessagesCache := cache.1
    providerMessagePrefixHashesCache := cache.2
    providerMessagesCacheLen := s.messages.length
    providerMessagesCacheMode := .clean }

def updateProviderCache (s : Session) : Session :=
  if s.providerMessagesCacheMode = .full ∨ s.messages.length < s.providerMessagesCacheLen then
    s.setProviderCache (pushCacheEntries toVec ([], []) s.messages)
  else if s.providerMessagesCacheMode = .append ∧
      s.providerMessagesCacheLen < s.messages.length then
    s.setProviderCache
      (pushCacheEntries toVec (s.providerMessagesCache, s.providerMessagePrefixHashesCache)
        (s.messages.drop s.providerMessagesCacheLen))
  else s

def providerMessages (s : Session) : List Message × Session :=
  let s := s.updateProviderCache toVec
  (s.providerMessagesCache, s)

def providerMessagePrefixHashes (s : Session) : List UInt64 × Session :=
  let s := (s.providerMessages toVec).2
  (s.providerMessagePrefixHashesCache, s)

end Session

end

def Session.messagesForProviderUncached (s : Session) : List Message :=
  s.messages.map StoredMessage.toMessage

def Session.stripTranscriptForRemoteClient (s : Session) : Session :=
  { s with
    messages := []
    compaction := none
    envSnapshots := []
    memoryInjections := []
    replayEvents := [] }.resetProviderMessagesCache.resetPersistState true

/-! ### What the cache is to hold -/

section
variable (toVec : Message → List UInt8)

/-- The stable hashes of the messages, folded. -/
def prefixHash (messages : List Message) : Option UInt64 :=
  match messages.map (stableMessageHash toVec) with
  | [] => none
  | hash :: hashes => some (hashes.foldl extendStableHash hash)

/-- The hashes are those of the prefixes of the messages, in order. -/
def PrefixHashes (messages : List Message) (hashes : List UInt64) : Prop :=
  hashes.length = messages.length ∧
    ∀ i < messages.length, hashes[i]? = prefixHash toVec (messages.take (i + 1))

/-- The cache of these messages. -/
def cacheOf (messages : List StoredMessage) : List Message × List UInt64 :=
  pushCacheEntries toVec ([], []) messages

end

section
variable {toVec : Message → List UInt8}

theorem prefixHash_concat (messages : List Message) (message : Message) :
    prefixHash toVec (messages ++ [message]) =
      some (match prefixHash toVec messages with
        | some prev => extendStableHash prev (stableMessageHash toVec message)
        | none => stableMessageHash toVec message) := by
  cases messages with
  | nil => rfl
  | cons m messages =>
      simp only [prefixHash, List.cons_append, List.map_cons, List.map_append, List.map_nil,
        List.foldl_append, List.foldl_cons, List.foldl_nil]

theorem PrefixHashes.getLast? {messages : List Message} {hashes : List UInt64}
    (h : PrefixHashes toVec messages hashes) : hashes.getLast? = prefixHash toVec messages := by
  obtain ⟨hlen, hget⟩ := h
  rw [List.getLast?_eq_getElem?]
  cases hmessages : messages.length with
  | zero =>
      rw [List.length_eq_zero_iff.mp hmessages, List.length_eq_zero_iff.mp (hlen.trans hmessages)]
      rfl
  | succ n =>
      rw [hlen, hmessages, Nat.add_sub_cancel, hget n (by omega), ← hmessages, List.take_length]

/-- One more message, and the hash of the prefix that ends with it. -/
theorem PrefixHashes.concat {messages : List Message} {hashes : List UInt64}
    (h : PrefixHashes toVec messages hashes) (message : Message) {hash : UInt64}
    (hhash : prefixHash toVec (messages ++ [message]) = some hash) :
    PrefixHashes toVec (messages ++ [message]) (hashes ++ [hash]) := by
  obtain ⟨hlen, hget⟩ := h
  refine ⟨by simp [hlen], fun i hi => ?_⟩
  rw [List.length_append, List.length_singleton] at hi
  rcases Nat.lt_succ_iff_lt_or_eq.mp hi with hi | rfl
  · rw [List.getElem?_append_left (hlen ▸ hi), hget i hi, List.take_append_of_le_length hi]
  · rw [← hlen, List.getElem?_concat_length, List.take_of_length_le (by simp [hlen]), hhash]

/-- **The fold fills the cache** with the messages and the hashes of their prefixes. -/
theorem cacheOf_spec (messages : List StoredMessage) :
    (cacheOf toVec messages).1 = messages.map StoredMessage.toMessage ∧
      PrefixHashes toVec (messages.map StoredMessage.toMessage) (cacheOf toVec messages).2 := by
  induction messages using List.reverseRecOn with
  | nil => exact ⟨rfl, rfl, fun i hi => absurd hi (Nat.not_lt_zero i)⟩
  | append_singleton messages m ih =>
      obtain ⟨hmessages, hhashes⟩ := ih
      have hpush : cacheOf toVec (messages ++ [m]) =
          pushCacheEntry toVec (cacheOf toVec messages) m.toMessage := List.foldl_append ..
      rw [hpush, List.map_append, List.map_singleton]
      refine ⟨congrArg (· ++ [m.toMessage]) hmessages, hhashes.concat m.toMessage ?_⟩
      rw [prefixHash_concat, hhashes.getLast?]

end

/-! ### The invariant -/

/-- Unless it is to be made anew, the cache is that of the first messages. -/
def CacheTracks (toVec : Message → List UInt8) (s : Session) : Prop :=
  Tracks (cacheOf toVec) s.providerMessagesCacheMode s.providerMessagesCacheLen
    (s.providerMessagesCache, s.providerMessagePrefixHashesCache) s.messages

section
variable {toVec : Message → List UInt8} {s s' : Session}

theorem CacheTracks.of_full (h : s.providerMessagesCacheMode = .full) : CacheTracks toVec s := by
  rw [CacheTracks, h]
  exact Tracks.edited

theorem CacheTracks.of_touches (h : CacheTracks toVec s) (ht : Touches s s') :
    CacheTracks toVec s' := by
  rw [CacheTracks, ht.cache, ht.hashes, ht.cacheLen]
  exact h.change ht.provider

/-- A cache just filled tracks the messages. -/
theorem CacheTracks.setProviderCache (s : Session) :
    CacheTracks toVec (s.setProviderCache (cacheOf toVec s.messages)) :=
  Tracks.synced s.messages

/-- **A read leaves the cache of the messages**, and keeps the invariant. -/
theorem CacheTracks.updateProviderCache (h : CacheTracks toVec s) :
    ((s.updateProviderCache toVec).providerMessagesCache,
        (s.updateProviderCache toVec).providerMessagePrefixHashesCache) =
      cacheOf toVec s.messages ∧
        CacheTracks toVec (s.updateProviderCache toVec) := by
  unfold Session.updateProviderCache
  split
  · exact ⟨rfl, .setProviderCache s⟩
  · rename_i hnot
    obtain ⟨hmode, hle⟩ := not_or.mp hnot
    split
    · rw [show pushCacheEntries toVec _ _ = cacheOf toVec s.messages from h.foldl_drop hmode]
      exact ⟨rfl, .setProviderCache s⟩
    · rename_i hnone
      -- the mode is clean, or nothing was appended: the cache is that of all messages
      obtain ⟨-, hview, hclean⟩ := h hmode
      have hlen : s.providerMessagesCacheLen = s.messages.length := by
        cases hm : s.providerMessagesCacheMode with
        | clean => exact hclean hm
        | append => exact Nat.le_antisymm (Nat.not_lt.mp hle) (Nat.not_lt.mp fun h => hnone ⟨hm, h⟩)
        | full => exact absurd hm hmode
      rw [hview, hlen, List.take_length]
      exact ⟨rfl, h⟩

end

/-! ### Runs -/

/-- An operation on the session, a read of the cache, or a save or a load of the files given. -/
inductive CacheEvent where
  | mutate (m : Mutation)
  | save (now : DateTime) (appendOk : Bool) (files : Files)
  | load (files : Files)
  | stripTranscriptForRemoteClient
  | providerMessages
  | providerMessagePrefixHashes

section
variable (toVec : Message → List UInt8) (lineLen : SessionJournalEntry → ℕ)

def cacheStep (s : Session) : CacheEvent → Option Session
  | .mutate m => m.apply s
  | .save now appendOk files => some (s.save lineLen now appendOk files).1
  | .load files => loadFromPath files
  | .stripTranscriptForRemoteClient => some s.stripTranscriptForRemoteClient
  | .providerMessages => some (s.providerMessages toVec).2
  | .providerMessagePrefixHashes => some (s.providerMessagePrefixHashes toVec).2

end

/-- A run begins with a session that is created or loaded. -/
inductive Opened : Session → Prop where
  | created (host : Host) (id : String) (parentId title : Option String) :
      Opened (.createWithId host id parentId title)
  | loaded {files : Files} {s : Session} (h : loadFromPath files = some s) : Opened s

section
variable {toVec : Message → List UInt8} {lineLen : SessionJournalEntry → ℕ} {s s' : Session}

/-- A loaded session has no cache. -/
theorem providerMessagesCacheMode_of_load {files : Files} (h : loadFromPath files = some s) :
    s.providerMessagesCacheMode = .full := by
  obtain ⟨saved, -, rfl⟩ := Option.map_eq_some_iff.mp h
  dsimp only
  split <;> rfl

theorem Opened.cacheTracks (h : Opened s) : CacheTracks toVec s := by
  cases h with
  | created => exact .of_full rfl
  | loaded h => exact .of_full (providerMessagesCacheMode_of_load h)

/-- A save touches neither the messages nor their cache. -/
theorem CacheTracks.save (h : CacheTracks toVec s) (now : DateTime) (appendOk : Bool)
    (files : Files) : CacheTracks toVec (s.save lineLen now appendOk files).1 := by
  rcases s.save_cases lineLen now appendOk files with ⟨-, hsave⟩ | ⟨-, hsave⟩
  · rw [hsave]
    exact h
  · rw [hsave]
    exact h

/-- Each step keeps the invariant. -/
theorem CacheTracks.step {e : CacheEvent} (h : CacheTracks toVec s)
    (hs : cacheStep toVec lineLen s e = some s') : CacheTracks toVec s' := by
  cases e with
  | mutate m => exact h.of_touches (.of_mutation hs)
  | save now appendOk files =>
      cases hs
      exact h.save now appendOk files
  | load files => exact .of_full (providerMessagesCacheMode_of_load hs)
  | stripTranscriptForRemoteClient =>
      cases hs
      exact .of_full rfl
  | providerMessages =>
      cases hs
      exact h.updateProviderCache.2
  | providerMessagePrefixHashes =>
      cases hs
      exact h.updateProviderCache.2

/-- **The cache is the plain view.**  After any run a read of the provider messages gives the
stored ones, and a read of the prefix hashes the folds of their hashes. -/
theorem provider_messages_eq_uncached {ts : List (Transition Session CacheEvent)}
    (opened : Opened s) (run : Run (cacheStep toVec lineLen) s ts s') :
    (s'.providerMessages toVec).1 = s'.messagesForProviderUncached ∧
      PrefixHashes toVec s'.messagesForProviderUncached
        (s'.providerMessagePrefixHashes toVec).1 := by
  have htracks : CacheTracks toVec s' :=
    run.preserves (fun _ _ hs h => CacheTracks.step h hs) opened.cacheTracks
  obtain ⟨hmessages, hhashes⟩ := @cacheOf_spec toVec s'.messages
  rw [← htracks.updateProviderCache.1] at hmessages hhashes
  exact ⟨hmessages, hhashes⟩

end

/-- The JSON of a message without times, of blocks of plain text. -/
def plainToVec (message : Message) : List UInt8 :=
  let role :=
    match message.role with
    | .user => "user"
    | .assistant => "assistant"
  let blocks := message.content.filterMap Session.blockText?
  let content := blocks.map fun text =>
    "\x7b\"type\":\"text\",\"text\":\"" ++ text ++ "\"\x7d"
  ("\x7b\"role\":\"" ++ role ++ "\",\"content\":[" ++ Rust.join "," content ++ "]\x7d")
    |>.toUTF8.toList

/-- A prompt, and the answer that replaces one that was cut short. -/
def prompted : List CacheEvent :=
  [.mutate (.appendStoredMessage ⟨"m1", .user, [.text "hi" none], none, none, none, none⟩),
    .mutate (.appendStoredMessage ⟨"m2", .assistant, [.text "he" none], none, none, none, none⟩),
    .providerMessages, .mutate (.truncateMessages 1),
    .mutate (.appendStoredMessage ⟨"m3", .assistant, [.text "hello" none], none, none, none, none⟩)]

theorem provider_messages_eq_uncached_prompted :
    ∃ ts s', Run (cacheStep plainToVec fun _ => 700) fox.session ts s' ∧
      ts.map Transition.event = prompted ∧ s'.messages.length = 2 ∧
      (s'.providerMessages plainToVec).1 = s'.messagesForProviderUncached ∧
      PrefixHashes plainToVec s'.messagesForProviderUncached
        (s'.providerMessagePrefixHashes plainToVec).1 := by
  obtain ⟨ts, s', run, hevents, hlen⟩ := Run.of_observed
    (f := fun r : List (Transition Session CacheEvent) × Session => r.2.messages.length)
    (show (exec (cacheStep plainToVec fun _ => 700) fox.session prompted).map _ = some 2 by
      decide +kernel)
  exact ⟨ts, s', run, hevents, hlen,
    provider_messages_eq_uncached (.created _ _ _ _) run⟩

end Jcode.History
