import Mathlib

/-!
# Import — the order of a Claude Code transcript

`ordered_claude_code_message_entries` of `jcode-import-core/src/lib.rs`.  The entries of a file refer
to their parents.  From each root the order follows the first child that is not visited, and what
no walk comes to is swept up behind.  What a timestamp is in time is a parameter.

An entry that has no uuid is never visited: a walk that comes to it goes on to the entries without
a parent, itself perhaps, and the sweep takes it once more.

* `onLine_mem`: a walk that ends has come to every entry on the line of a root.
* `walk_total`: where each entry on the line of a root has a uuid, a walk ends, and parents come
  before their children.
* `ordered_exact`: so all of that is needed, and enough.
-/

namespace Jcode.Import.Transcript

variable {μ : Type}

/-- `ClaudeCodeEntry`, without its session and directory. -/
structure ClaudeCodeEntry (μ : Type) where
  entryType : String
  uuid : Option String
  parentUuid : Option String
  message : Option μ
  timestamp : Option String
  isSidechain : Bool

/-- `message_entries`. -/
def messageEntries (entries : List (ClaudeCodeEntry μ)) : List (ClaudeCodeEntry μ) :=
  entries.filter fun e =>
    (e.entryType == "user" || e.entryType == "assistant") && e.message.isSome && !e.isSidechain

/-- `uuid_to_entry.contains_key`. -/
def containsKey (messages : List (ClaudeCodeEntry μ)) (uuid : String) : Bool :=
  messages.any fun e => e.uuid == some uuid

def isRoot (messages : List (ClaudeCodeEntry μ)) (e : ClaudeCodeEntry μ) : Bool :=
  e.parentUuid.isNone || !containsKey messages (e.parentUuid.getD "")

/-- The order of the roots: by time, and those without a time behind. -/
def rootOrder (time : String → Option ℤ) (a b : ClaudeCodeEntry μ) : Ordering :=
  match a.timestamp.bind time, b.timestamp.bind time with
  | some x, some y => compare x y
  | some _, none => .lt
  | none, some _ => .gt
  | none, none => .eq

def sortedRoots (time : String → Option ℤ) (messages : List (ClaudeCodeEntry μ)) :
    List (ClaudeCodeEntry μ) :=
  (messages.filter (isRoot messages)).mergeSort fun a b => rootOrder time a b != .gt

/-- What the walks leave: `ordered_entries` and `visited`. -/
structure Walks (μ : Type) where
  ordered : List (ClaudeCodeEntry μ) := []
  visited : List String := []

def unvisited (visited : List String) (e : ClaudeCodeEntry μ) : Bool :=
  (e.uuid.map fun uuid => !visited.contains uuid).getD true

def next (messages : List (ClaudeCodeEntry μ)) (visited : List String)
    (current : ClaudeCodeEntry μ) : Option (ClaudeCodeEntry μ) :=
  messages.find? fun e => e.parentUuid == current.uuid && unvisited visited e

def Walks.push (s : Walks μ) (current : ClaudeCodeEntry μ) : Walks μ where
  ordered := s.ordered ++ [current]
  visited := s.visited ++ current.uuid.toList

/-- The `loop` from a root. -/
def walk (messages : List (ClaudeCodeEntry μ)) :
    ℕ → Walks μ → ClaudeCodeEntry μ → Option (Walks μ)
  | 0, _, _ => none
  | fuel + 1, s, current =>
      if unvisited s.visited current then
        match next messages (s.push current).visited current with
        | some n => walk messages fuel (s.push current) n
        | none => some (s.push current)
      else some s

def orderedClaudeCodeMessageEntries (time : String → Option ℤ) (fuel : ℕ)
    (entries : List (ClaudeCodeEntry μ)) : Option (List (ClaudeCodeEntry μ)) :=
  let messages := messageEntries entries
  ((sortedRoots time messages).foldlM (walk messages fuel) {}).map fun s =>
    s.ordered ++ messages.filter (unvisited s.visited)

/-! ### What is asked of the order -/

/-- The first child of an entry, in the order of the file. -/
def FirstChild (messages : List (ClaudeCodeEntry μ)) (p c : ClaudeCodeEntry μ) : Prop :=
  p.uuid ≠ none ∧ messages.find? (fun e => e.parentUuid == p.uuid) = some c

/-- The entries on the line of a root: the root, its first child, and so on. -/
inductive OnLine (messages : List (ClaudeCodeEntry μ)) : ClaudeCodeEntry μ → Prop
  | root {e : ClaudeCodeEntry μ} : e ∈ messages → isRoot messages e = true → OnLine messages e
  | child {p c : ClaudeCodeEntry μ} : OnLine messages p → FirstChild messages p c →
      OnLine messages c

/-- In the list `l`, each entry stands behind its parent, when that is one of `messages`. -/
def ParentsFirst (messages l : List (ClaudeCodeEntry μ)) : Prop :=
  ∀ a e b, l = a ++ e :: b → ∀ p ∈ messages, p.uuid ≠ none → e.parentUuid = p.uuid → p ∈ a

/-- The order is there, with nothing lost or repeated, and with parents first where the file has
them first. -/
def Faithful (time : String → Option ℤ) (entries : List (ClaudeCodeEntry μ)) : Prop :=
  ∃ out, (∃ bound, ∀ fuel ≥ bound, orderedClaudeCodeMessageEntries time fuel entries = some out) ∧
    out.Perm (messageEntries entries) ∧
    (ParentsFirst entries entries → ParentsFirst (messageEntries entries) out)

variable {messages entries l : List (ClaudeCodeEntry μ)} {s s' : Walks μ}
  {current e p c n : ClaudeCodeEntry μ} {visited : List String} {fuel : ℕ}

/-! ### Uuids -/

theorem unvisited_eq_false_iff :
    unvisited visited e = false ↔ ∃ uuid ∈ visited, e.uuid = some uuid := by
  rw [unvisited]
  cases e.uuid with
  | none => simp
  | some uuid => simp

theorem eq_of_uuid (hdist : (messages.filterMap (·.uuid)).Nodup) (he : e ∈ messages)
    (hp : p ∈ messages) (huuid : e.uuid = p.uuid) (hsome : p.uuid ≠ none) : e = p := by
  obtain ⟨uuid, hpu⟩ := Option.ne_none_iff_exists'.mp hsome
  rw [hpu] at huuid
  induction messages with
  | nil => cases he
  | cons m messages ih =>
      rw [List.filterMap_cons] at hdist
      have htail : ∀ {x}, x ∈ messages → x.uuid = some uuid → m.uuid = some uuid → False := by
        intro x hx hxu hmu
        rw [hmu] at hdist
        exact (List.nodup_cons.mp hdist).1 (List.mem_filterMap.mpr ⟨x, hx, hxu⟩)
      rcases List.mem_cons.mp he with rfl | he
      · rcases List.mem_cons.mp hp with rfl | hp
        · rfl
        · exact (htail hp hpu huuid).elim
      · rcases List.mem_cons.mp hp with heq | hp
        · exact (htail he huuid (heq ▸ hpu)).elim
        · refine ih ?_ he hp
          cases hm : m.uuid with
          | none => rwa [hm] at hdist
          | some u =>
              rw [hm] at hdist
              exact (List.nodup_cons.mp hdist).2

/-- What the walks have visited is what they have taken. -/
structure Visits (messages : List (ClaudeCodeEntry μ)) (s : Walks μ) : Prop where
  mem : ∀ e ∈ s.ordered, e ∈ messages
  visited : ∀ uuid, uuid ∈ s.visited ↔ ∃ e ∈ s.ordered, e.uuid = some uuid

theorem Visits.start : Visits messages {} := ⟨nofun, by simp⟩

theorem Visits.push (h : Visits messages s) (hcur : current ∈ messages) :
    Visits messages (s.push current) where
  mem := by
    intro e he
    rcases List.mem_append.mp he with he | he
    · exact h.mem e he
    · rw [List.mem_singleton.mp he]
      exact hcur
  visited := by
    intro uuid
    simp only [Walks.push, List.mem_append, h.visited uuid, Option.mem_toList,
      List.mem_singleton]
    constructor
    · rintro (⟨e, he, hu⟩ | hu)
      · exact ⟨e, Or.inl he, hu⟩
      · exact ⟨current, Or.inr rfl, hu⟩
    · rintro ⟨e, he | rfl, hu⟩
      · exact Or.inl ⟨e, he, hu⟩
      · exact Or.inr hu

/-- A visited entry has been taken. -/
theorem Visits.mem_of_visited (h : Visits messages s)
    (hdist : (messages.filterMap (·.uuid)).Nodup) (he : e ∈ messages)
    (hvisited : unvisited s.visited e = false) : e ∈ s.ordered := by
  obtain ⟨uuid, hmem, hu⟩ := unvisited_eq_false_iff.mp hvisited
  obtain ⟨e', he', hu'⟩ := (h.visited uuid).mp hmem
  have heq : e = e' := eq_of_uuid hdist he (h.mem e' he') (hu.trans hu'.symm) (by rw [hu']; nofun)
  rwa [heq]

/-- An entry with a uuid that has been taken is visited. -/
theorem Visits.visited_of_mem (h : Visits messages s) (he : e ∈ s.ordered) (hu : e.uuid ≠ none) :
    unvisited s.visited e = false := by
  obtain ⟨uuid, hu⟩ := Option.ne_none_iff_exists'.mp hu
  exact unvisited_eq_false_iff.mpr ⟨uuid, (h.visited uuid).mpr ⟨e, he, hu⟩, hu⟩

/-! ### What a walk that ends has come to -/

/-- The first child is the next entry, unless it is visited. -/
theorem next_of_firstChild (h : FirstChild messages p c) (hc : unvisited visited c = true) :
    next messages visited p = some c := by
  obtain ⟨hparent, before, after, rfl, hbefore⟩ := List.find?_eq_some_iff_append.mp h.2
  refine List.find?_eq_some_iff_append.mpr ⟨by rw [hparent, hc]; rfl, before, after, rfl, ?_⟩
  intro e he
  have hnot := hbefore e he
  rw [Bool.not_eq_true'] at hnot ⊢
  rw [hnot, Bool.false_and]

/-- With each entry its first child. -/
def Closed (messages ordered : List (ClaudeCodeEntry μ)) : Prop :=
  ∀ p ∈ ordered, ∀ c, FirstChild messages p c → c ∈ ordered

theorem walk_closed (hdist : (messages.filterMap (·.uuid)).Nodup) (hv : Visits messages s)
    (hcur : current ∈ messages)
    (hclosed : ∀ p ∈ s.ordered, ∀ c, FirstChild messages p c → c ∈ s.ordered ∨ c = current)
    (hwalk : walk messages fuel s current = some s') :
    Visits messages s' ∧ Closed messages s'.ordered ∧ s.ordered ⊆ s'.ordered ∧
      current ∈ s'.ordered := by
  induction fuel generalizing s current with
  | zero => cases hwalk
  | succ fuel ih =>
      rw [walk] at hwalk
      split at hwalk
      · have hv' := hv.push hcur
        have hnext : ∀ p ∈ (s.push current).ordered, ∀ c, FirstChild messages p c →
            c ∈ (s.push current).ordered ∨
              next messages (s.push current).visited current = some c := by
          intro p hp c hc
          rcases List.mem_append.mp hp with hp | hp
          · rcases hclosed p hp c hc with h | rfl
            · exact Or.inl (List.mem_append_left _ h)
            · exact Or.inl (by simp [Walks.push])
          · obtain rfl := List.mem_singleton.mp hp
            cases hvisited : unvisited (s.push p).visited c with
            | true => exact Or.inr (next_of_firstChild hc hvisited)
            | false =>
                have hmem : c ∈ messages := List.mem_of_find?_eq_some hc.2
                exact Or.inl (hv'.mem_of_visited hdist hmem hvisited)
        cases hn : next messages (s.push current).visited current with
        | none =>
            rw [hn] at hwalk
            obtain rfl := Option.some.inj hwalk
            refine ⟨hv', fun p hp c hc => ?_, List.subset_append_left _ _, by simp [Walks.push]⟩
            exact (hnext p hp c hc).resolve_right (by rw [hn]; nofun)
        | some n =>
            rw [hn] at hwalk
            have hmem : n ∈ messages := List.mem_of_find?_eq_some hn
            obtain ⟨hvisits, hclosed', hsub, -⟩ := ih hv' hmem (fun p hp c hc => by
              rcases hnext p hp c hc with h | h
              · exact Or.inl h
              · rw [hn] at h
                exact Or.inr (Option.some.inj h).symm) hwalk
            refine ⟨hvisits, hclosed', ?_, hsub (by simp [Walks.push])⟩
            exact List.Subset.trans (List.subset_append_left _ _) hsub
      · next hnot =>
          obtain rfl := Option.some.inj hwalk
          have hmem := hv.mem_of_visited hdist hcur (Bool.eq_false_iff.mpr hnot)
          refine ⟨hv, fun p hp c hc => ?_, List.Subset.refl _, hmem⟩
          rcases hclosed p hp c hc with h | rfl
          · exact h
          · exact hmem

theorem walks_closed (hdist : (messages.filterMap (·.uuid)).Nodup) {roots : List (ClaudeCodeEntry μ)}
    (hroots : ∀ e ∈ roots, e ∈ messages) (hv : Visits messages s)
    (hclosed : Closed messages s.ordered) (hwalks : roots.foldlM (walk messages fuel) s = some s') :
    Visits messages s' ∧ Closed messages s'.ordered ∧ s.ordered ⊆ s'.ordered ∧
      roots ⊆ s'.ordered := by
  induction roots generalizing s with
  | nil =>
      obtain rfl := Option.some.inj hwalks
      exact ⟨hv, hclosed, List.Subset.refl _, List.nil_subset _⟩
  | cons root roots ih =>
      rw [List.foldlM_cons] at hwalks
      obtain ⟨s₁, hwalk, hrest⟩ := Option.bind_eq_some_iff.mp hwalks
      obtain ⟨hroot, hroots⟩ := List.forall_mem_cons.mp hroots
      obtain ⟨hv₁, hclosed₁, hsub₁, hmem⟩ :=
        walk_closed hdist hv hroot (fun p hp c hc => Or.inl (hclosed p hp c hc)) hwalk
      obtain ⟨hv', hclosed', hsub', hroots'⟩ := ih hroots hv₁ hclosed₁ hrest
      refine ⟨hv', hclosed', List.Subset.trans hsub₁ hsub', ?_⟩
      exact List.cons_subset.mpr ⟨hsub' hmem, hroots'⟩

theorem mem_sortedRoots (time : String → Option ℤ) :
    e ∈ sortedRoots time messages ↔ e ∈ messages ∧ isRoot messages e = true := by
  rw [sortedRoots, List.mem_mergeSort, List.mem_filter]

/-- **The entries on the line of a root** are taken by walks that end. -/
theorem onLine_mem (hclosed : Closed messages s.ordered)
    (hroots : ∀ e ∈ messages, isRoot messages e = true → e ∈ s.ordered)
    (h : OnLine messages e) : e ∈ s.ordered := by
  induction h with
  | root hmem hroot => exact hroots _ hmem hroot
  | child _ hc ih => exact hclosed _ ih _ hc

/-- An entry without a uuid that is taken is swept up once more. -/
theorem not_perm (he : e ∈ s.ordered) (hnone : e.uuid = none) :
    ¬ (s.ordered ++ messages.filter (unvisited s.visited)).Perm messages := by
  intro hperm
  have hcount := hperm.countP_eq fun e => e.uuid.isNone
  rw [List.countP_append, List.countP_filter] at hcount
  have hsweep : (messages.countP fun e => e.uuid.isNone && unvisited s.visited e) =
      messages.countP fun e => e.uuid.isNone := by
    refine List.countP_congr fun m _ => ?_
    cases hm : m.uuid with
    | none => simp [unvisited, hm]
    | some u => simp
  have hpos : 0 < s.ordered.countP fun e => e.uuid.isNone :=
    List.countP_pos_iff.mpr ⟨e, he, by rw [hnone]; rfl⟩
  omega

/-! ### Parents first -/

theorem ParentsFirst.append (h : ParentsFirst messages l) {m : List (ClaudeCodeEntry μ)}
    (hm : ∀ a e b, m = a ++ e :: b → ∀ p ∈ messages, p.uuid ≠ none → e.parentUuid = p.uuid →
      p ∈ l ++ a) : ParentsFirst messages (l ++ m) := by
  intro a e b heq p hp hsome hparent
  rcases List.append_eq_append_iff.mp heq with ⟨a', rfl, hm'⟩ | ⟨c', hl, hrest⟩
  · exact hm a' e b hm' p hp hsome hparent
  · cases c' with
    | nil =>
        have hnil := hm [] e b hrest.symm p hp hsome hparent
        rw [List.append_nil] at hnil hl
        rwa [← hl]
    | cons d c' =>
        obtain ⟨rfl, -⟩ := List.cons.inj hrest
        exact h a e c' hl p hp hsome hparent

/-- An entry of a filtered list, and what stands before it in the list. -/
theorem filter_split {q : ClaudeCodeEntry μ → Bool} {a b : List (ClaudeCodeEntry μ)}
    (h : l.filter q = a ++ e :: b) : ∃ a' b', l = a' ++ e :: b' ∧ a'.filter q = a := by
  obtain ⟨l₁, l₂, rfl, h₁, h₂⟩ := List.filter_eq_append_iff.mp h
  obtain ⟨l₃, l₄, rfl, hnot, -, -⟩ := List.filter_eq_cons_iff.mp h₂
  refine ⟨l₁ ++ l₃, l₄, by rw [List.append_assoc], ?_⟩
  rw [List.filter_append, h₁, List.filter_eq_nil_iff.mpr hnot, List.append_nil]

/-- The messages of a file stand in its order. -/
theorem ParentsFirst.messageEntries (h : ParentsFirst entries entries) :
    ParentsFirst (messageEntries entries) (messageEntries entries) := by
  intro a e b heq p hp hsome hparent
  obtain ⟨a', b', hentries, ha⟩ := filter_split heq
  obtain ⟨hmem, hmessage⟩ := List.mem_filter.mp hp
  rw [← ha]
  exact List.mem_filter.mpr ⟨h a' e b' hentries p hmem hsome hparent, hmessage⟩

/-- The sweep stands behind the walks, in the order of the file. -/
theorem parentsFirst_sweep (hdist : (messages.filterMap (·.uuid)).Nodup)
    (hv : Visits messages s) (hwalks : ParentsFirst messages s.ordered)
    (hfile : ParentsFirst messages messages) :
    ParentsFirst messages (s.ordered ++ messages.filter (unvisited s.visited)) := by
  refine hwalks.append fun a e b heq p hp hsome hparent => ?_
  cases hvisited : unvisited s.visited p with
  | false => exact List.mem_append_left _ (hv.mem_of_visited hdist hp hvisited)
  | true =>
      obtain ⟨a', b', hmessages, ha⟩ := filter_split heq
      rw [← ha]
      refine List.mem_append_right _ (List.mem_filter.mpr ⟨?_, hvisited⟩)
      exact hfile a' e b' hmessages p hp hsome hparent

/-! ### Where each entry on the line has a uuid -/

theorem OnLine.mem (h : OnLine messages e) : e ∈ messages := by
  cases h with
  | root hmem _ => exact hmem
  | child _ hc => exact List.mem_of_find?_eq_some hc.2

/-- How far the walks are: they take entries on the line of a root, once, behind their parents. -/
structure Progress (messages : List (ClaudeCodeEntry μ)) (s : Walks μ) : Prop where
  visits : Visits messages s
  onLine : ∀ e ∈ s.ordered, OnLine messages e
  nodup : s.ordered.Nodup
  parents : ParentsFirst messages s.ordered

theorem Progress.start : Progress messages {} where
  visits := Visits.start
  onLine := nofun
  nodup := List.nodup_nil
  parents := by
    intro a e b heq
    cases a <;> cases heq

theorem Progress.length_le (h : Progress messages s) : s.ordered.length ≤ messages.length :=
  (h.nodup.subperm h.visits.mem).length_le

theorem Progress.push (h : Progress messages s) (hcur : OnLine messages current)
    (hsome : current.uuid ≠ none) (hnew : unvisited s.visited current = true)
    (hparent : ∀ p ∈ messages, p.uuid ≠ none → current.parentUuid = p.uuid → p ∈ s.ordered) :
    Progress messages (s.push current) where
  visits := h.visits.push hcur.mem
  onLine := by
    intro e he
    rcases List.mem_append.mp he with he | he
    · exact h.onLine e he
    · rw [List.mem_singleton.mp he]
      exact hcur
  nodup := by
    refine List.nodup_append.mpr ⟨h.nodup, List.nodup_singleton _, ?_⟩
    rintro e he e' he' rfl
    obtain rfl := List.mem_singleton.mp he'
    rw [h.visits.visited_of_mem he hsome] at hnew
    cases hnew
  parents := by
    refine h.parents.append fun a e b heq p hp hpu hpe => ?_
    cases a with
    | nil =>
        obtain ⟨rfl, -⟩ := List.cons.inj heq
        exact List.mem_append_left _ (hparent p hp hpu hpe)
    | cons d a =>
        obtain ⟨-, hnil⟩ := List.cons.inj heq
        cases a <;> cases hnil

/-- The last entry that was taken stands before no other one. -/
theorem Progress.not_before_last (h : Progress messages (s.push current)) {a b : List (ClaudeCodeEntry μ)}
    (heq : (s.push current).ordered = a ++ c :: b) : current ∉ a := by
  intro ha
  have hlast : current ∈ c :: b := by
    have hget : (s.push current).ordered.getLast? = some current := List.getLast?_concat
    rw [heq, List.getLast?_append_cons] at hget
    exact List.mem_of_getLast? hget
  have hnodup := h.nodup
  rw [heq, List.nodup_append] at hnodup
  exact hnodup.2.2 current ha current hlast rfl

/-- The next entry is the first child, which no walk has visited before. -/
theorem Progress.next_onLine (h : Progress messages (s.push current))
    (hdist : (messages.filterMap (·.uuid)).Nodup) (hcur : OnLine messages current)
    (hsome : current.uuid ≠ none) (hn : next messages (s.push current).visited current = some n) :
    OnLine messages n ∧ n.parentUuid = current.uuid := by
  have hfound := List.find?_some hn
  obtain ⟨hparent, -⟩ := Bool.and_eq_true_iff.mp hfound
  have hexists : (messages.find? fun e => e.parentUuid == current.uuid).isSome :=
    List.find?_isSome.mpr ⟨n, List.mem_of_find?_eq_some hn, hparent⟩
  obtain ⟨c, hc⟩ := Option.isSome_iff_exists.mp hexists
  have hfirst : FirstChild messages current c := ⟨hsome, hc⟩
  have hline : OnLine messages c := .child hcur hfirst
  cases hvisited : unvisited (s.push current).visited c with
  | true =>
      rw [next_of_firstChild hfirst hvisited] at hn
      obtain rfl := Option.some.inj hn
      exact ⟨hline, beq_iff_eq.mp hparent⟩
  | false =>
      -- a child that was taken stands behind its parent, and that is the last entry
      have hmem := h.visits.mem_of_visited hdist hline.mem hvisited
      obtain ⟨a, b, heq⟩ := List.append_of_mem hmem
      have hchild := List.find?_some hc
      exact absurd (h.parents a c b heq current hcur.mem hsome (beq_iff_eq.mp hchild))
        (h.not_before_last heq)

/-- **A walk ends.** -/
theorem walk_total (hdist : (messages.filterMap (·.uuid)).Nodup)
    (hcond : ∀ e, OnLine messages e → e.uuid ≠ none) (h : Progress messages s)
    (hcur : OnLine messages current)
    (hparent : ∀ p ∈ messages, p.uuid ≠ none → current.parentUuid = p.uuid → p ∈ s.ordered)
    (hfuel : messages.length < fuel + s.ordered.length) :
    ∃ s', walk messages fuel s current = some s' ∧ Progress messages s' := by
  induction fuel generalizing s current with
  | zero => exact absurd h.length_le (by omega)
  | succ fuel ih =>
      rw [walk]
      split
      · next hnew =>
          have hsome := hcond current hcur
          have hpush := h.push hcur hsome hnew hparent
          cases hn : next messages (s.push current).visited current with
          | none => exact ⟨_, rfl, hpush⟩
          | some n =>
              obtain ⟨hline, hn'⟩ := hpush.next_onLine hdist hcur hsome hn
              have hlen : (s.push current).ordered.length = s.ordered.length + 1 :=
                List.length_append
              refine ih hpush hline (fun p hp hpu hpe => ?_) (by omega)
              obtain rfl := eq_of_uuid hdist hp hcur.mem (hpe.symm.trans hn') hsome
              simp [Walks.push]
      · exact ⟨s, rfl, h⟩

/-- A root has no parent among the messages. -/
theorem not_parent_of_root (hroot : isRoot messages e = true) (hp : p ∈ messages)
    (hpu : p.uuid ≠ none) : e.parentUuid ≠ p.uuid := by
  intro hpe
  obtain ⟨uuid, hu⟩ := Option.ne_none_iff_exists'.mp hpu
  have hkey : containsKey messages uuid = true :=
    List.any_eq_true.mpr ⟨p, hp, by rw [hu]; exact beq_self_eq_true _⟩
  rw [isRoot, hpe, hu, Option.getD_some, hkey] at hroot
  cases hroot

theorem walks_total (hdist : (messages.filterMap (·.uuid)).Nodup)
    (hcond : ∀ e, OnLine messages e → e.uuid ≠ none) {roots : List (ClaudeCodeEntry μ)}
    (hroots : ∀ e ∈ roots, e ∈ messages ∧ isRoot messages e = true) (h : Progress messages s)
    (hfuel : messages.length < fuel) :
    ∃ s', roots.foldlM (walk messages fuel) s = some s' ∧ Progress messages s' := by
  induction roots generalizing s with
  | nil => exact ⟨s, rfl, h⟩
  | cons root roots ih =>
      obtain ⟨⟨hmem, hroot⟩, hroots⟩ := List.forall_mem_cons.mp hroots
      obtain ⟨s₁, hwalk, h₁⟩ := walk_total hdist hcond h (.root hmem hroot)
        (fun p hp hpu hpe => absurd hpe (not_parent_of_root hroot hp hpu))
        (Nat.lt_add_right _ hfuel)
      obtain ⟨s', hwalks, h'⟩ := ih hroots h₁
      refine ⟨s', ?_, h'⟩
      rw [List.foldlM_cons, hwalk]
      exact hwalks

/-- More fuel changes nothing. -/
theorem walk_mono {more : ℕ} (hle : fuel ≤ more) (h : walk messages fuel s current = some s') :
    walk messages more s current = some s' := by
  induction fuel generalizing more s current with
  | zero => cases h
  | succ fuel ih =>
      obtain ⟨more, rfl⟩ : ∃ k, more = k + 1 := ⟨more - 1, by omega⟩
      rw [walk] at h ⊢
      split at h
      · next hnew =>
          rw [if_pos hnew]
          cases hn : next messages (s.push current).visited current with
          | none =>
              rw [hn] at h
              exact h
          | some n =>
              rw [hn] at h
              exact ih (Nat.le_of_succ_le_succ hle) h
      · next hnot =>
          rw [if_neg hnot]
          exact h

theorem walks_mono {more : ℕ} (hle : fuel ≤ more) {roots : List (ClaudeCodeEntry μ)}
    (h : roots.foldlM (walk messages fuel) s = some s') :
    roots.foldlM (walk messages more) s = some s' := by
  induction roots generalizing s with
  | nil => exact h
  | cons root roots ih =>
      rw [List.foldlM_cons] at h ⊢
      obtain ⟨s₁, hwalk, hrest⟩ := Option.bind_eq_some_iff.mp h
      exact Option.bind_eq_some_iff.mpr ⟨s₁, walk_mono hle hwalk, ih hrest⟩

/-! ### The order -/

theorem nodup_of_uuid (hdist : (l.filterMap (·.uuid)).Nodup) (hsome : ∀ e ∈ l, e.uuid ≠ none) :
    l.Nodup := by
  induction l with
  | nil => exact List.nodup_nil
  | cons e l ih =>
      obtain ⟨he, hl⟩ := List.forall_mem_cons.mp hsome
      obtain ⟨uuid, hu⟩ := Option.ne_none_iff_exists'.mp he
      rw [List.filterMap_cons, hu, List.nodup_cons] at hdist
      refine List.nodup_cons.mpr ⟨fun hmem => ?_, ih hdist.2 hl⟩
      exact hdist.1 (List.mem_filterMap.mpr ⟨e, hmem, hu⟩)

/-- What is taken and what is swept up are the messages. -/
theorem Progress.perm (h : Progress messages s) (hdist : (messages.filterMap (·.uuid)).Nodup)
    (hcond : ∀ e, OnLine messages e → e.uuid ≠ none) :
    (s.ordered ++ messages.filter (unvisited s.visited)).Perm messages := by
  have htaken : s.ordered.Perm (messages.filter fun e => !unvisited s.visited e) := by
    refine (List.perm_ext_iff_of_nodup h.nodup (nodup_of_uuid ?_ ?_)).mpr fun e => ?_
    · exact hdist.sublist (List.filter_sublist.filterMap _)
    · intro e he hnone
      have hvisited := (List.mem_filter.mp he).2
      rw [unvisited, hnone] at hvisited
      cases hvisited
    · rw [List.mem_filter, Bool.not_eq_true']
      constructor
      · intro he
        exact ⟨h.visits.mem e he, h.visits.visited_of_mem he (hcond e (h.onLine e he))⟩
      · rintro ⟨hmem, hvisited⟩
        exact h.visits.mem_of_visited hdist hmem hvisited
  refine (htaken.append_right _).trans (List.perm_append_comm.trans ?_)
  exact List.filter_append_perm _ _

/-- **The order is faithful exactly when each entry on the line of a root has a uuid.** -/
theorem ordered_exact (time : String → Option ℤ) (entries : List (ClaudeCodeEntry μ))
    (hdist : (entries.filterMap (·.uuid)).Nodup) :
    Faithful time entries ↔ ∀ e, OnLine (messageEntries entries) e → e.uuid ≠ none := by
  have hdist' : ((messageEntries entries).filterMap (·.uuid)).Nodup :=
    hdist.sublist (List.filter_sublist.filterMap _)
  have hroots : ∀ e ∈ sortedRoots time (messageEntries entries),
      e ∈ messageEntries entries ∧ isRoot (messageEntries entries) e = true :=
    fun e => (mem_sortedRoots time).mp
  constructor
  · rintro ⟨out, ⟨bound, hbound⟩, hperm, -⟩ e he hnone
    obtain ⟨s, hwalks, rfl⟩ := Option.map_eq_some_iff.mp (hbound bound le_rfl)
    obtain ⟨-, hclosed, -, htaken⟩ :=
      walks_closed hdist' (fun e he => (hroots e he).1) Visits.start nofun hwalks
    have hmem : e ∈ s.ordered :=
      onLine_mem hclosed (fun e he hroot => htaken ((mem_sortedRoots time).mpr ⟨he, hroot⟩)) he
    exact not_perm hmem hnone hperm
  · intro hcond
    obtain ⟨s, hwalks, hs⟩ :=
      walks_total hdist' hcond hroots Progress.start (Nat.lt_succ_self _)
    refine ⟨_, ⟨(messageEntries entries).length + 1, fun fuel hfuel => ?_⟩, hs.perm hdist' hcond, fun hfile => ?_⟩
    · exact congrArg (Option.map _) (walks_mono hfuel hwalks)
    · exact parentsFirst_sweep hdist' hs.visits hs.parents hfile.messageEntries

/-- A prompt of a file, with its uuid. -/
def prompt (uuid parentUuid : Option String) : ClaudeCodeEntry String where
  entryType := "user"
  uuid := uuid
  parentUuid := parentUuid
  message := some "hi"
  timestamp := none
  isSidechain := false

/-- A branch and a dangling parent, with uuids throughout. -/
theorem ordered_exact_branch :
    (([prompt (some "a") none, prompt (some "b") (some "a"), prompt (some "c") (some "a"),
      prompt (some "d") (some "gone")].filterMap (·.uuid)).Nodup) ∧
    Faithful (fun _ => none) [prompt (some "a") none, prompt (some "b") (some "a"),
      prompt (some "c") (some "a"), prompt (some "d") (some "gone")] := by
  have hdist : (([prompt (some "a") none, prompt (some "b") (some "a"), prompt (some "c") (some "a"),
      prompt (some "d") (some "gone")].filterMap (·.uuid)).Nodup) := by
    simp [prompt]
  refine ⟨hdist, (ordered_exact (fun _ => none) _ hdist).mpr fun e he => ?_⟩
  have hmem := List.mem_of_mem_filter he.mem
  simp only [List.mem_cons, List.not_mem_nil, or_false] at hmem
  rcases hmem with rfl | rfl | rfl | rfl <;> exact nofun

/-- A walk from an entry without a uuid and a parent goes on from it to itself. -/
theorem walk_prompt (fuel : ℕ) (s : Walks String) :
    walk [prompt none none] fuel s (prompt none none) = none := by
  induction fuel generalizing s with
  | zero => rfl
  | succ fuel ih => exact ih (s.push (prompt none none))

theorem anonymous_never_ends :
    ([prompt none none].filterMap (·.uuid)).Nodup ∧
      ¬ Faithful (fun _ => none) [prompt none none] := by
  refine ⟨List.nodup_nil, ?_⟩
  rintro ⟨out, ⟨bound, hbound⟩, -, -⟩
  have hmessages : messageEntries [prompt none none] = [prompt none none] := by
    simp [messageEntries, prompt]
  have hroots : sortedRoots (fun _ => none) [prompt none none] = [prompt none none] := by
    simp [sortedRoots, isRoot, prompt]
  have hstop : orderedClaudeCodeMessageEntries (fun _ => none) bound [prompt none none] = none := by
    rw [orderedClaudeCodeMessageEntries, hmessages, hroots, List.foldlM_cons, walk_prompt]
    rfl
  rw [hbound bound le_rfl] at hstop
  cases hstop

end Jcode.Import.Transcript
