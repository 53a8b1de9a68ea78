import Mathlib.Data.List.Nodup
import GraphExport.Proofs.Output.Transparency

/-!
# GraphExport.Proofs.Output.Recency

A pool by itself keeps those writers open that it was last asked for.

* `Pool.recent`: the keys that were asked for, each once, the latest first.
* `Pool.Turn`: what a request that succeeds does to the times of the writers and to the open ones.
  `Pool.Requested.turn`: there is no other way.
* `Pool.Recalls`: the open writers are those of the first keys of `recent`, and their times are in
  that order. `Pool.Recalls.request`, `Pool.Recalls.act`: one step. `Pool.Recalls.play`: a whole
  run.
* `Pool.open_writers_are_recent`: a pool is an exact cache, and evicts only where it has to.
-/

namespace GraphExport

/-! ## Lists of keys -/

section

variable {α : Type} [BEq α] [LawfulBEq α]

theorem filter_eraseDups (p : α → Bool) : ∀ l : List α,
    l.eraseDups.filter p = (l.filter p).eraseDups
  | [] => rfl
  | a :: rest => by
    have ih := filter_eraseDups p (rest.filter fun b => !b == a)
    rw [List.eraseDups_cons, List.filter_cons, List.filter_cons, ih, List.filter_filter]
    split
    · rw [List.eraseDups_cons, List.filter_filter]
      simp only [Bool.and_comm]
    · rename_i hp
      refine congrArg List.eraseDups (List.filter_congr fun b _ => ?_)
      by_cases hb : b = a
      · subst hb
        simp [hp]
      · simp [hb]
termination_by l => l.length
decreasing_by exact Nat.lt_succ_of_le (List.length_filter_le _ _)

theorem nodup_eraseDups : ∀ l : List α, l.eraseDups.Nodup
  | [] => List.nodup_nil
  | a :: rest => by
    have ih := nodup_eraseDups (rest.filter fun b => !b == a)
    rw [List.eraseDups_cons, List.nodup_cons, List.mem_eraseDups]
    exact ⟨by simp, ih⟩
termination_by l => l.length
decreasing_by exact Nat.lt_succ_of_le (List.length_filter_le _ _)

/-- Of the first keys, those but one of them are the first of the others. -/
theorem take_filter_of_mem {l : List α} {k : α} {n : Nat} (h : l.Nodup) (hk : k ∈ l.take (n + 1)) :
    (l.filter (· != k)).take n = (l.take (n + 1)).filter (· != k) := by
  induction l generalizing n with
  | nil => cases hk
  | cons a rest ih =>
    obtain ⟨hfirst, hrest⟩ := List.nodup_cons.1 h
    rw [List.take_succ_cons, List.filter_cons, List.filter_cons]
    by_cases ha : a = k
    · subst ha
      have hall : ∀ l' : List α, a ∉ l' → l'.filter (· != a) = l' := fun l' hl' =>
        List.filter_eq_self.2 fun b hb => bne_iff_ne.2 fun heq => hl' (heq ▸ hb)
      rw [if_neg (by simp), if_neg (by simp), hall rest hfirst,
        hall _ fun hmem => hfirst (List.mem_of_mem_take hmem)]
    · have hne : (a != k) = true := by simpa using ha
      have hk' : k ∈ rest.take n := by
        rw [List.take_succ_cons] at hk
        exact (List.mem_cons.1 hk).resolve_left (Ne.symm ha)
      rw [if_pos hne, if_pos hne]
      cases n with
      | zero => cases hk'
      | succ n => rw [List.take_succ_cons, ih hrest hk']

/-- Leaving a key out changes nothing among the first ones if it is not one of them. -/
theorem take_filter_of_not_mem {l : List α} {k : α} {n : Nat} (hk : k ∉ l.take n) :
    (l.filter (· != k)).take n = l.take n := by
  induction l generalizing n with
  | nil => rfl
  | cons a rest ih =>
    cases n with
    | zero => rfl
    | succ n =>
      rw [List.take_succ_cons, List.mem_cons, not_or] at hk
      rw [List.filter_cons, if_pos (by simpa using Ne.symm hk.1), List.take_succ_cons,
        List.take_succ_cons, ih hk.2]

end

/-- Under which a writer is filed. -/
abbrev WriterKey := OutputKind × Label

def LabelWriter.key (w : LabelWriter) : WriterKey := (w.kind, w.label)

/-- The writer that an act asks for. -/
def PoolAct.key? : PoolAct → Option WriterKey
  | .seed _ _ => none
  | .get kind label => some (kind, label)
  | .write kind label _ => some (kind, label)

namespace Pool

/-- The keys that were asked for, each once, the latest first. -/
def recent (keys : List WriterKey) : List WriterKey := keys.reverse.eraseDups

theorem recent_concat (keys : List WriterKey) (key : WriterKey) :
    recent (keys ++ [key]) = key :: (recent keys).filter (· != key) := by
  rw [recent, recent, List.reverse_append, List.reverse_singleton, List.singleton_append,
    List.eraseDups_cons, filter_eraseDups]
  rfl

theorem nodup_recent (keys : List WriterKey) : (recent keys).Nodup := nodup_eraseDups _

/-- The writer of a key is there and open. -/
def isOpenAt (p : Pool) (key : WriterKey) : Bool := (p.writer? key.1 key.2).any (·.isOpen)

/-- The time of the last use of the writer of a key. -/
def usedAt (p : Pool) (key : WriterKey) : Nat :=
  ((p.writer? key.1 key.2).map (·.lastUsed)).getD 0

/-- An act asks for a writer that is not open while all handles are in use. -/
def isCrowded (p : Pool) (max : Nat) (a : PoolAct) : Bool :=
  a.key?.any (fun key => !p.isOpenAt key) && p.openCount = max

/-- How often in a run a writer is asked for that is not open while all handles are in use. -/
def crowdedRequests (max : Nat) : List PoolAct → Pool → Disk → Nat
  | [], _, _ => 0
  | a :: rest, p, d =>
    (if p.isCrowded max a then 1 else 0) +
      crowdedRequests max rest (p.act a d).2.1 (p.act a d).2.2

section

variable {p p' : Pool} {kind : OutputKind} {label : Label} {w : LabelWriter} {d d' : Disk}
  {keys : List WriterKey} {max : Nat}

/-! ## One writer -/

theorem isOpenAt_setWriter (p : Pool) (w : LabelWriter) (key : WriterKey) :
    (p.setWriter w).isOpenAt key = if key = w.key then w.isOpen else p.isOpenAt key := by
  unfold isOpenAt
  rw [writer?_setWriter]
  by_cases h : key = w.key
  · subst h
    rw [if_pos ⟨rfl, rfl⟩, if_pos rfl, Option.any_some]
  · rw [if_neg fun hkey => h (Prod.ext hkey.1 hkey.2), if_neg h]

theorem usedAt_setWriter (p : Pool) (w : LabelWriter) (key : WriterKey) :
    (p.setWriter w).usedAt key = if key = w.key then w.lastUsed else p.usedAt key := by
  unfold usedAt
  rw [writer?_setWriter]
  by_cases h : key = w.key
  · subst h
    rw [if_pos ⟨rfl, rfl⟩, if_pos rfl]
    rfl
  · rw [if_neg fun hkey => h (Prod.ext hkey.1 hkey.2), if_neg h]

theorem foldl_older_le (w : LabelWriter) (rest : List LabelWriter) :
    ∀ v ∈ w :: rest, (rest.foldl older w).lastUsed ≤ v.lastUsed := by
  induction rest generalizing w with
  | nil =>
    intro v hv
    rw [List.mem_singleton.1 hv]
    rfl
  | cons u rest ih =>
    have hfirst := ih (older w u) _ List.mem_cons_self
    have holder : (older w u).lastUsed ≤ w.lastUsed ∧ (older w u).lastUsed ≤ u.lastUsed := by
      unfold older
      split <;> omega
    intro v hv
    rw [List.foldl_cons]
    rcases List.mem_cons.1 hv with rfl | hv
    · exact hfirst.trans holder.1
    rcases List.mem_cons.1 hv with rfl | hv
    · exact hfirst.trans holder.2
    · exact ih (older w u) v (List.mem_cons_of_mem _ hv)

/-- No open writer was used before the one that gives up its handle. -/
theorem leastRecent?_le (h : p.leastRecent? = some w) {v : LabelWriter} (hv : v ∈ p.openWriters) :
    w.lastUsed ≤ v.lastUsed := by
  obtain ⟨first, rest, hopen, rfl⟩ := leastRecent?_eq_some h
  exact foldl_older_le first rest v (hopen ▸ hv)

theorem Keyed.key_eq (h : p.Keyed) {key : WriterKey} (hw : p.writer? key.1 key.2 = some w) :
    w.key = key :=
  Prod.ext (h hw).1 (h hw).2

theorem isOpenAt_iff {key : WriterKey} :
    p.isOpenAt key = true ↔ ∃ w, p.writer? key.1 key.2 = some w ∧ w.isOpen = true := by
  rw [isOpenAt, Option.any_eq_true]

theorem isOpenAt_of_writer? {key : WriterKey} (hw : p.writer? key.1 key.2 = some w) :
    p.isOpenAt key = w.isOpen := by
  rw [isOpenAt, hw, Option.any_some]

theorem usedAt_of_writer? {key : WriterKey} (hw : p.writer? key.1 key.2 = some w) :
    p.usedAt key = w.lastUsed := by
  rw [usedAt, hw]
  rfl

/-- The keys of the open writers. -/
theorem Keyed.mem_openKeys (h : p.Keyed) {key : WriterKey} :
    key ∈ p.openWriters.map LabelWriter.key ↔ p.isOpenAt key = true := by
  rw [isOpenAt_iff, List.mem_map]
  constructor
  · rintro ⟨w, hw, rfl⟩
    obtain ⟨hmem, hopen⟩ := mem_openWriters.1 hw
    obtain ⟨kind, label, hwriter⟩ := mem_all.1 hmem
    obtain ⟨rfl, rfl⟩ := h hwriter
    exact ⟨w, hwriter, hopen⟩
  · rintro ⟨w, hw, hopen⟩
    exact ⟨w, mem_openWriters.2 ⟨mem_all.2 ⟨_, _, hw⟩, hopen⟩, h.key_eq hw⟩

/-- No two writers have the same key. -/
theorem Keyed.nodup_keys (h : p.Keyed) : (p.all.map LabelWriter.key).Nodup := by
  have hkeys : ∀ kind, (p.writers.get kind).values.map LabelWriter.key =
      (p.writers.get kind).keys.map fun label => (kind, label) := by
    intro kind
    rw [SortedMap.values, SortedMap.keys, List.map_map, List.map_map]
    exact List.map_congr_left fun e he => h.key_eq
      (show p.writer? (kind, e.1).1 (kind, e.1).2 = some e.2 from SortedMap.mem_entries.1 he)
  have hnodup : ∀ kind, ((p.writers.get kind).values.map LabelWriter.key).Nodup := by
    intro kind
    rw [hkeys kind]
    exact (p.writers.get kind).increasing.nodup_keys.map fun _ _ heq => (Prod.mk.inj heq).2
  have hkind : ∀ {kind key}, key ∈ (p.writers.get kind).values.map LabelWriter.key →
      key.1 = kind := by
    intro kind key hkey
    rw [hkeys kind] at hkey
    obtain ⟨label, -, rfl⟩ := List.mem_map.1 hkey
    rfl
  have hapart : ∀ kind kind' : OutputKind, kind ≠ kind' →
      ∀ a ∈ (p.writers.get kind).values.map LabelWriter.key,
        ∀ b ∈ (p.writers.get kind').values.map LabelWriter.key, a ≠ b := by
    rintro kind kind' hne a ha b hb rfl
    exact hne ((hkind ha).symm.trans (hkind hb))
  rw [all, List.map_append, List.map_append]
  refine List.nodup_append.2 ⟨List.nodup_append.2 ⟨hnodup .nodes, hnodup .edges,
    hapart .nodes .edges (by decide)⟩, hnodup .results, fun a ha b hb => ?_⟩
  rcases List.mem_append.1 ha with ha | ha
  · exact hapart .nodes .results (by decide) a ha b hb
  · exact hapart .edges .results (by decide) a ha b hb

theorem Keyed.nodup_openKeys (h : p.Keyed) : (p.openWriters.map LabelWriter.key).Nodup :=
  h.nodup_keys.sublist (List.filter_sublist.map _)

/-! ## One request -/

/-- What a request that succeeds does to the open writers: its own is open already, or a handle is
free for it, or the one that was used before all others gives up its own. -/
inductive Turn (p : Pool) (key : WriterKey) (d : Disk) (p' : Pool) : Prop where
  | hit (hopen : p.isOpenAt key = true)
      (hstay : ∀ k, p'.isOpenAt k = true ↔ p.isOpenAt k = true)
      (hevictions : p'.evictions = p.evictions)
  | free {b : HandleBudget} (hclosed : p.isOpenAt key = false) (hb : d.budget.acquire? = some b)
      (hstay : ∀ k, p'.isOpenAt k = true ↔ k = key ∨ p.isOpenAt k = true)
      (hevictions : p'.evictions = p.evictions)
  | evicted {victim : WriterKey} (hclosed : p.isOpenAt key = false)
      (hfull : d.budget.acquire? = none) (hvictim : p.isOpenAt victim = true)
      (holdest : ∀ k, p.isOpenAt k = true → p.usedAt victim ≤ p.usedAt k)
      (hstay : ∀ k, p'.isOpenAt k = true ↔ k = key ∨ (p.isOpenAt k = true ∧ k ≠ victim))
      (hevictions : p'.evictions = p.evictions + 1)

/-- Handles change hands: the times stay, and only the writer that gives up its handle is closed. -/
theorem Taken.usedAt (htaken : p.Taken d p' d') (h : p.Keyed) (key : WriterKey) :
    p'.usedAt key = p.usedAt key := by
  cases htaken with
  | free => rfl
  | @evicted victim b hfull hvictim hb =>
    obtain ⟨hwriter, -⟩ := h.of_leastRecent? hvictim
    show (p.setWriter victim.suspend).usedAt key = p.usedAt key
    rw [usedAt_setWriter]
    split
    · rename_i hkey
      subst hkey
      have hused : p.usedAt victim.key = victim.lastUsed := usedAt_of_writer? hwriter
      exact hused.symm
    · rfl

theorem NeedsHandle.isOpenAt (h : p.NeedsHandle kind label) : p.isOpenAt (kind, label) = false := by
  rw [← Bool.not_eq_true, isOpenAt_iff]
  rintro ⟨w, hw, hopen⟩
  rw [h.1 w hw] at hopen
  cases hopen

/-- All that a request does that succeeds: its writer is the last one used, and is open. -/
theorem Requested.turn (hreq : p.Requested kind label d (.ok w) p' d') (h : p.Keyed) :
    p.Turn (kind, label) d p' ∧ p'.clock = p.clock + 1 ∧
      ∀ key, p'.usedAt key = if key = (kind, label) then p.clock + 1 else p.usedAt key := by
  have htick : p.tick.Keyed := h
  cases hreq with
  | @ready w hw hopen =>
    obtain ⟨rfl, rfl⟩ := h hw
    refine ⟨.hit (isOpenAt_iff.2 ⟨w, hw, hopen⟩) (fun key => ?_) rfl, rfl,
      fun key => usedAt_setWriter p.tick _ key⟩
    rw [isOpenAt_setWriter]
    split
    · rename_i hkey
      subst hkey
      exact iff_of_true hopen (isOpenAt_iff.2 ⟨w, hw, hopen⟩)
    · rfl
  | @served p₁ d₁ _ w hneeds htaken hfetch =>
    obtain ⟨hopen, rfl, rfl⟩ := h.fetch hfetch
    have hclock : p₁.clock = p.clock + 1 := htaken.settings.2.2.2.2
    have hclosed := hneeds.isOpenAt
    have hset : ∀ key, (p₁.setWriter { w with lastUsed := p₁.clock }).isOpenAt key = true ↔
        key = (w.kind, w.label) ∨ p₁.isOpenAt key = true := by
      intro key
      rw [isOpenAt_setWriter]
      split
      · rename_i hkey
        exact iff_of_true hopen (.inl hkey)
      · rename_i hkey
        exact (or_iff_right hkey).symm
    refine ⟨?_, hclock, fun key => ?_⟩
    · cases htaken with
      | free hb => exact .free hclosed hb hset rfl
      | @evicted victim b hfull hvictim hb =>
        obtain ⟨hwriter, hvopen⟩ := htick.of_leastRecent? hvictim
        have hgiven : p.isOpenAt victim.key = true := isOpenAt_iff.2 ⟨victim, hwriter, hvopen⟩
        refine .evicted hclosed hfull hgiven (fun key hkey => ?_)
          (fun key => (hset key).trans (or_congr Iff.rfl ?_)) rfl
        · obtain ⟨v, hv, hvopen'⟩ := isOpenAt_iff.1 hkey
          rw [usedAt_of_writer? hwriter, usedAt_of_writer? hv]
          exact leastRecent?_le hvictim (mem_openWriters.2 ⟨mem_all.2 ⟨_, _, hv⟩, hvopen'⟩)
        · show (p.tick.setWriter victim.suspend).isOpenAt key = true ↔ _
          rw [isOpenAt_setWriter]
          split
          · rename_i hkey
            exact iff_of_false (by simp [LabelWriter.suspend]) fun hand => hand.2 hkey
          · rename_i hkey
            exact (and_iff_left hkey).symm
    · rw [usedAt_setWriter, hclock, htaken.usedAt htick]
      rfl

/-! ## The invariant -/

/-- The open writers are those of the first keys that were asked for, the latest first, and their
times are in that order. -/
structure Recalls (max : Nat) (keys : List WriterKey) (p : Pool) (d : Disk) : Prop where
  keyed : p.Keyed
  balanced : p.Balanced d
  limit : d.budget.max = max
  isOpen : ∀ key, p.isOpenAt key = true ↔ key ∈ (recent keys).take max
  order : (recent keys).Pairwise fun a b => p.usedAt b < p.usedAt a
  clock : ∀ key, p.usedAt key ≤ p.clock

theorem Recalls.openKeys (h : p.Recalls max keys d) :
    (p.openWriters.map LabelWriter.key).Perm ((recent keys).take max) :=
  (List.perm_ext_iff_of_nodup h.keyed.nodup_openKeys
    ((nodup_recent keys).sublist (List.take_sublist _ _))).2 fun key =>
      h.keyed.mem_openKeys.trans (h.isOpen key)

theorem Recalls.openCount (h : p.Recalls max keys d) :
    p.openCount = min max (recent keys).length := by
  have hlength := h.openKeys.length_eq
  rwa [List.length_map, List.length_take] at hlength

/-- The new key comes first, and the others keep their order. -/
theorem Recalls.order_concat (h : p.Recalls max keys d) {key : WriterKey}
    (hused : ∀ k, p'.usedAt k = if k = key then p.clock + 1 else p.usedAt k) :
    (recent (keys ++ [key])).Pairwise fun a b => p'.usedAt b < p'.usedAt a := by
  have hother : ∀ k ∈ (recent keys).filter (· != key), p'.usedAt k = p.usedAt k := fun k hk =>
    (hused k).trans (if_neg (by simpa using (List.mem_filter.1 hk).2))
  rw [recent_concat]
  refine List.pairwise_cons.2 ⟨fun k hk => ?_, ?_⟩
  · rw [hother k hk, hused key, if_pos rfl]
    exact Nat.lt_succ_of_le (h.clock k)
  · refine (h.order.sublist List.filter_sublist).imp_of_mem fun {a b} ha hb hlt => ?_
    rwa [hother a ha, hother b hb]

/-- Where more keys were asked for than may be open, the one that was used before all others comes
last of the first ones. -/
theorem Recalls.isOpenAt_and_ne (h : p.Recalls (max + 1) keys d) (hlen : max < (recent keys).length)
    {victim : WriterKey} (hvictim : p.isOpenAt victim = true)
    (holdest : ∀ k, p.isOpenAt k = true → p.usedAt victim ≤ p.usedAt k) (k : WriterKey) :
    (p.isOpenAt k = true ∧ k ≠ victim) ↔ k ∈ (recent keys).take max := by
  have hsplit := List.take_append_getElem hlen
  generalize (recent keys)[max] = last at hsplit
  have hopen : ∀ k, p.isOpenAt k = true ↔ k ∈ (recent keys).take max ∨ k = last := by
    intro k
    rw [h.isOpen, ← hsplit, List.mem_append, List.mem_singleton]
  have horder : ∀ k ∈ (recent keys).take max, p.usedAt last < p.usedAt k := by
    have hfirst := h.order.sublist (List.take_sublist (max + 1) _)
    rw [← hsplit] at hfirst
    exact fun k hk => (List.pairwise_append.1 hfirst).2.2 k hk last (List.mem_singleton_self _)
  have hlast : victim = last := by
    refine ((hopen victim).1 hvictim).resolve_left fun hmem => ?_
    exact absurd (holdest last ((hopen last).2 (.inr rfl))) (Nat.not_le.2 (horder victim hmem))
  subst hlast
  rw [hopen]
  constructor
  · rintro ⟨hmem | rfl, hne⟩
    · exact hmem
    · exact absurd rfl hne
  · rintro hmem
    refine ⟨.inl hmem, ?_⟩
    rintro rfl
    exact lt_irrefl _ (horder k hmem)

/-- The first keys after a request are those that its turn leaves open. -/
theorem Recalls.isOpen_concat (h : p.Recalls (max + 1) keys d) {key : WriterKey}
    (hturn : p.Turn key d p') (k : WriterKey) :
    p'.isOpenAt k = true ↔ k ∈ (recent (keys ++ [key])).take (max + 1) := by
  have hcount := h.openCount
  have hbudget := h.balanced.count
  have hlimit := h.limit
  have hclosed : p.isOpenAt key = false →
      ((recent keys).filter (· != key)).take max = (recent keys).take max := by
    intro hnot
    refine take_filter_of_not_mem fun hmem => ?_
    rw [(h.isOpen key).2 (List.take_subset_take_left _ (Nat.le_succ max) hmem)] at hnot
    cases hnot
  rw [recent_concat, List.take_succ_cons, List.mem_cons]
  cases hturn with
  | hit hopen hstay =>
    have hmem := (h.isOpen key).1 hopen
    rw [hstay, h.isOpen, take_filter_of_mem (nodup_recent keys) hmem, List.mem_filter, bne_iff_ne]
    by_cases hk : k = key
    · subst hk
      exact iff_of_true hmem (.inl rfl)
    · rw [or_iff_right hk, and_iff_left hk]
  | free hnot hb hstay =>
    obtain ⟨hopen, hmax, -, hwithin⟩ := HandleBudget.acquire?_eq_some hb
    have hlen : (recent keys).length ≤ max := by
      unfold HandleBudget.Within at hwithin
      omega
    rw [hstay, hclosed hnot, h.isOpen, List.take_of_length_le hlen,
      List.take_of_length_le (Nat.le_succ_of_le hlen)]
  | evicted hnot hfull hvictim holdest hstay =>
    have := HandleBudget.acquire?_eq_none hfull
    have hlen : max < (recent keys).length := by omega
    rw [hstay, hclosed hnot, h.isOpenAt_and_ne hlen hvictim holdest]

/-! ## A run -/

/-- A request counts as an eviction if it asks for a writer that is not open while all handles are
in use. -/
theorem Recalls.evictions (h : p.Recalls (max + 1) keys d) {key : WriterKey} {a : PoolAct}
    (ha : a.key? = some key) (hturn : p.Turn key d p') :
    p'.evictions = p.evictions + if p.isCrowded (max + 1) a then 1 else 0 := by
  have hcount := h.balanced.count
  have hbound := h.balanced.bound
  have hlimit := h.limit
  unfold isCrowded
  rw [ha, Option.any_some]
  cases hturn with
  | hit hopen _ hevictions => rw [hevictions, hopen, Bool.not_true, Bool.false_and]; rfl
  | free hnot hb _ hevictions =>
    obtain ⟨hopen, hmax, -, hwithin⟩ := HandleBudget.acquire?_eq_some hb
    have hroom : p.openCount ≠ max + 1 := by
      unfold HandleBudget.Within at hwithin
      omega
    rw [hevictions, decide_eq_false hroom, Bool.and_false]
    rfl
  | evicted hnot hfull _ _ _ hevictions =>
    have := HandleBudget.acquire?_eq_none hfull
    have hall : p.openCount = max + 1 := by omega
    rw [hevictions, hnot, decide_eq_true hall]
    rfl

theorem Recalls.request (h : p.Recalls (max + 1) keys d)
    (hreq : p.Requested kind label d (.ok w) p' d') :
    p'.Recalls (max + 1) (keys ++ [(kind, label)]) d' := by
  obtain ⟨hturn, hclock, hused⟩ := hreq.turn h.keyed
  obtain ⟨-, hlimit, -⟩ :=
    hreq.openCount h.keyed (by simp) h.balanced.count.symm.le h.balanced.bound
  refine ⟨hreq.keyed h.keyed, (h.balanced.requested h.keyed hreq).2, hlimit.trans h.limit,
    h.isOpen_concat hturn, h.order_concat hused, fun key => ?_⟩
  rw [hused, hclock]
  split
  · exact le_refl _
  · exact (h.clock key).trans (Nat.le_succ _)

/-- Where the writers look the same, the pool recalls the same. -/
theorem Recalls.congr (h : p.Recalls max keys d) (hkeyed : p'.Keyed) (hbalanced : p'.Balanced d')
    (hlimit : d'.budget.max = d.budget.max) (hopen : ∀ key, p'.isOpenAt key = p.isOpenAt key)
    (hused : ∀ key, p'.usedAt key = p.usedAt key) (hclock : p'.clock = p.clock) :
    p'.Recalls max keys d' where
  keyed := hkeyed
  balanced := hbalanced
  limit := hlimit.trans h.limit
  isOpen key := hopen key ▸ h.isOpen key
  order := by simpa only [hused] using h.order
  clock key := by
    rw [hused, hclock]
    exact h.clock key

/-- A row makes no difference to the handles. -/
theorem Recalls.row (h : p.Recalls max keys d) (hw : p.writer? w.kind w.label = some w)
    (hopen : w.isOpen = true) {i : Item} (hwritten : Written i.writeTo w p d (.ok ()) p' d') :
    p'.Recalls max keys d' ∧ p'.evictions = p.evictions := by
  obtain ⟨hcount, hbudget⟩ := hwritten.openCount hw hopen
  cases hwritten with
  | done hwrite =>
    obtain ⟨schema, -, rfl⟩ := Item.writeTo_ok hopen hwrite
    refine ⟨h.congr (h.keyed.setWriter _) ⟨?_, ?_⟩ ?_ (fun key => ?_) (fun key => ?_) rfl, rfl⟩
    · rw [hbudget, hcount]
      exact h.balanced.count
    · rw [hbudget]
      exact h.balanced.bound
    · rw [hbudget]
    · have hsame : p.isOpenAt w.key = w.isOpen := isOpenAt_of_writer? hw
      rw [isOpenAt_setWriter]
      split
      · rename_i hkey
        subst hkey
        exact hsame.symm
      · rfl
    · have hsame : p.usedAt w.key = w.lastUsed := usedAt_of_writer? hw
      rw [usedAt_setWriter]
      split
      · rename_i hkey
        subst hkey
        exact hsame.symm
      · rfl

theorem Recalls.act (h : p.Recalls (max + 1) keys d) {a : PoolAct}
    (hact : p.act a d = (.ok (), p', d')) :
    p'.Recalls (max + 1) (keys ++ a.key?.toList) d' ∧
      p'.evictions = p.evictions + if p.isCrowded (max + 1) a then 1 else 0 := by
  cases a with
  | seed kind schemas =>
    cases hact
    refine ⟨?_, rfl⟩
    rw [show (PoolAct.seed kind schemas).key?.toList = [] from rfl, List.append_nil]
    exact h.congr h.keyed ⟨h.balanced.count, h.balanced.bound⟩ rfl (fun _ => rfl) (fun _ => rfl) rfl
  | get kind label =>
    rcases hget : p.get kind label d with ⟨_ | w, p₁, d₁⟩
    · simp [Pool.act, hget, Except.map] at hact
    · simp only [Pool.act, hget, Prod.mk.injEq] at hact
      obtain ⟨-, rfl, rfl⟩ := hact
      have hreq := requested hget
      exact ⟨h.request hreq, h.evictions rfl (hreq.turn h.keyed).1⟩
  | write kind label i =>
    rw [act_write] at hact
    rcases writeWith_cases hact with ⟨f, -, hfail⟩ | ⟨w, p₁, d₁, hget, hwritten⟩
    · cases hfail
    · have hreq := requested hget
      obtain ⟨hw, hopen, rfl, rfl⟩ := hreq.writer? h.keyed
      obtain ⟨hrecalls, hsame⟩ := (h.request hreq).row hw hopen hwritten
      exact ⟨hrecalls, hsame.trans (h.evictions rfl (hreq.turn h.keyed).1)⟩

/-- Whatever the pool does with success, it recalls what it was asked for. -/
theorem Recalls.play (acts : List PoolAct) (h : p.Recalls (max + 1) keys d)
    {results : List (Except Failure Unit)} (hplay : p.play acts d = (results, p', d'))
    (hok : ∀ r ∈ results, r = .ok ()) :
    p'.Recalls (max + 1) (keys ++ acts.filterMap PoolAct.key?) d' ∧
      p'.evictions = p.evictions + crowdedRequests (max + 1) acts p d := by
  induction acts generalizing p d keys results with
  | nil =>
    cases hplay
    rw [List.filterMap_nil, List.append_nil]
    exact ⟨h, rfl⟩
  | cons a rest ih =>
    rcases hact : p.act a d with ⟨done, p₁, d₁⟩
    rcases hrest : p₁.play rest d₁ with ⟨more, p₂, d₂⟩
    simp only [Pool.play, hact, hrest, Prod.mk.injEq] at hplay
    obtain ⟨rfl, rfl, rfl⟩ := hplay
    obtain ⟨hfirst, hmore⟩ := List.forall_mem_cons.1 hok
    subst hfirst
    obtain ⟨h₁, hevictions₁⟩ := h.act hact
    obtain ⟨h₂, hevictions₂⟩ := ih h₁ hrest hmore
    refine ⟨?_, ?_⟩
    · rw [List.append_assoc] at h₂
      cases hkey : a.key? with
      | none =>
        rwa [hkey, Option.toList_none, List.nil_append, ← List.filterMap_cons_none hkey] at h₂
      | some key =>
        rwa [hkey, Option.toList_some, List.singleton_append, ← List.filterMap_cons_some hkey] at h₂
    · rw [hevictions₂, hevictions₁, crowdedRequests, hact, Nat.add_assoc]

theorem recalls_new (dir : Path) (format : Format) (kinds : List OutputKind)
    (seeds : PerKind Collection) (tree : FileTree) (filesNamed max : Nat) :
    Recalls max [] { dir, format, kinds, seeds } ⟨tree, filesNamed, { max }⟩ where
  keyed := keyed_new dir format kinds
  balanced := ⟨rfl, .inr (Nat.zero_le _)⟩
  limit := rfl
  isOpen key := by
    refine iff_of_false (fun hopen => ?_) (by simp [recent])
    obtain ⟨w, hw, -⟩ := isOpenAt_iff.1 hopen
    obtain ⟨kind, label⟩ := key
    cases kind <;> cases hw
  order := List.Pairwise.nil
  clock key := by
    obtain ⟨kind, label⟩ := key
    cases kind <;> exact Nat.zero_le _

end

/-- A pool that has the handles for itself is an exact cache. After any run that succeeds the open
writers are those of the latest distinct keys that were asked for, as many as there are handles, and
a writer was closed for another once for each request that found its own closed and no handle
free. -/
theorem open_writers_are_recent (dir : Path) (format : Format) (kinds : List OutputKind)
    (seeds : PerKind Collection) (tree : FileTree) (filesNamed : Nat) {max : Nat} (hmax : 0 < max)
    {acts : List PoolAct} {results : List (Except Failure Unit)} {p : Pool} {d : Disk}
    (hplay : play acts { dir, format, kinds, seeds } ⟨tree, filesNamed, { max }⟩ = (results, p, d))
    (hok : ∀ r ∈ results, r = .ok ()) :
    let keys := recent (acts.filterMap PoolAct.key?)
    (p.openWriters.map LabelWriter.key).Perm (keys.take max) ∧
      p.openCount = min max keys.length ∧
      p.evictions =
        crowdedRequests max acts { dir, format, kinds, seeds } ⟨tree, filesNamed, { max }⟩ := by
  obtain ⟨n, rfl⟩ := Nat.exists_eq_add_one_of_ne_zero hmax.ne'
  obtain ⟨h, hevictions⟩ :=
    (recalls_new dir format kinds seeds tree filesNamed (n + 1)).play acts hplay hok
  rw [List.nil_append] at h
  exact ⟨h.openKeys, h.openCount, hevictions.trans (Nat.zero_add _)⟩

/-- With two handles the second label is the one that is closed for the third, since the first was
asked for again. -/
theorem open_writers_are_recent_three_labels :
    let get (tag : String) : PoolAct := .get .nodes (.single tag)
    ∃ results p d, play [get "a", get "b", get "a", get "c"]
        { dir := .ofNames ["out"], format := .csv, kinds := [.nodes] } ⟨∅, 0, { max := 2 }⟩ =
          (results, p, d) ∧
      (∀ r ∈ results, r = .ok ()) ∧
      (p.openWriters.map LabelWriter.key).Perm [(.nodes, .single "c"), (.nodes, .single "a")] ∧
      p.openCount = 2 ∧ p.evictions = 1 := by
  intro get
  have hok : ∀ r ∈ (play [get "a", get "b", get "a", get "c"]
      { dir := .ofNames ["out"], format := .csv, kinds := [.nodes] } ⟨∅, 0, { max := 2 }⟩).1,
      r = .ok () := by decide +kernel
  have hcrowded : crowdedRequests 2 [get "a", get "b", get "a", get "c"]
      { dir := .ofNames ["out"], format := .csv, kinds := [.nodes] } ⟨∅, 0, { max := 2 }⟩ = 1 := by
    decide +kernel
  have hrecent : recent ([get "a", get "b", get "a", get "c"].filterMap PoolAct.key?) =
      [(.nodes, .single "c"), (.nodes, .single "a"), (.nodes, .single "b")] := by decide
  rcases hplay : play [get "a", get "b", get "a", get "c"]
      { dir := .ofNames ["out"], format := .csv, kinds := [.nodes] } ⟨∅, 0, { max := 2 }⟩ with
    ⟨results, p, d⟩
  rw [hplay] at hok
  obtain ⟨hkeys, hcount, hevictions⟩ := open_writers_are_recent (.ofNames ["out"]) .csv [.nodes]
    (.fill ∅) ∅ 0 Nat.two_pos hplay hok
  rw [hrecent] at hkeys hcount
  exact ⟨results, p, d, rfl, hok, hkeys, hcount, hevictions.trans hcrowded⟩

end Pool

end GraphExport
