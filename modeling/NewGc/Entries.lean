import Mathlib.Algebra.BigOperators.Group.Finset.Basic
import Mathlib.Algebra.Order.BigOperators.Group.Finset
import NewGc.PoolRuns

/-!
# Entries — how often a page is on the free-page list

A release pushes a page, opening it as a small page pops it, and a large allocation claims pages
without popping them.  A claimed page therefore keeps its entry and gets a second one when its run
is released.  The list stays within two entries a page exactly as long as no claim takes a page that
has two already, and nothing releases a page that is Free.
-/

namespace NewGc

open Library PageHeap

namespace Pool

/-! ## Entries -/

/-- A page has at most one entry while it is in use and at most two while it is Free. -/
structure TwoEntries (P : Pool) : Prop where
  live : ∀ p, (P.role p).kind = .Large → (P.role p).generation ≠ .Free
  inside : ∀ p, (P.role p).generation ≠ .Free → p < P.nPages
  inner : ∀ q p, (P.role q).kind = .Large → q < p → p < q + (P.role q).nSpan →
    (P.role p).kind = .Large ∧ (P.role p).nSpan = 0
  listed : ∀ p ∈ P.free, p < P.nPages
  entries : ∀ p, P.free.count p ≤ if (P.role p).generation = .Free then 2 else 1

/-- The events that keep the number of entries: a claim takes a whole run of pages with at most one
entry each, or nothing. -/
def Spares (P : Pool) : Event → Prop
  | .claim start m n _ => m = 0 ∨ (m = n ∧ ∀ p, Within start n p → P.free.count p ≤ 1)
  | .drop _ => False
  | _ => True

namespace TwoEntries

variable {P : Pool}

theorem le_two (hT : TwoEntries P) (p : Nat) : P.free.count p ≤ 2 := by
  have := hT.entries p
  split at this <;> omega

/-- A page of a run is in use. -/
theorem member (hT : TwoEntries P) {head p : Nat} (hk : (P.role head).kind = .Large)
    (hin : Within head (P.role head).nSpan p) : (P.role p).kind = .Large := by
  by_cases heq : p = head
  · rw [heq]
    exact hk
  · exact (hT.inner head p hk (by unfold Within at hin; omega) hin.2).1

/-- The entries left by a pop are those there were, less the one popped. -/
theorem popped_count (hT : TwoEntries P) (p : Nat) : P.popped.2.count p ≤ P.free.count p ∧
    (P.popped.1 = some p → P.popped.2.count p ≤ 1) := by
  rcases P.popped_suffix with hnil | ⟨idx, hidx, hsuffix⟩
  · rw [hnil]
    simp
  · have hle := hsuffix.sublist.count_le p
    have htwo := hT.le_two p
    refine ⟨Nat.le_trans (List.count_le_count_cons) hle, ?_⟩
    intro hp
    rw [hidx] at hp
    cases hp
    rw [List.count_cons_self] at hle
    omega

/-- A pop, whether or not a page is opened for it. -/
theorem shorter (hT : TwoEntries P) : TwoEntries { P with free := P.popped.2 } where
  live := hT.live
  inside := hT.inside
  inner := hT.inner
  listed := fun p hp => hT.listed p (P.popped_subset hp)
  entries := fun p => Nat.le_trans (hT.popped_count p).1 (hT.entries p)

/-- A page that is not Large gets another role that is not Large. -/
theorem setSmall (hT : TwoEntries P) {idx : Nat} {r : PageRole} {free : List Nat}
    (hold : (P.role idx).kind ≠ .Large) (hnew : r.kind ≠ .Large)
    (hidx : r.generation ≠ .Free → idx < P.nPages) (hfree : ∀ p ∈ free, p < P.nPages)
    (hself : free.count idx ≤ if r.generation = .Free then 2 else 1)
    (hother : ∀ p, p ≠ idx → free.count p ≤ P.free.count p) :
    TwoEntries { P with role := Function.update P.role idx r, free := free } := by
  have hlarge : ∀ p, (Function.update P.role idx r p).kind = .Large →
      p ≠ idx ∧ (P.role p).kind = .Large := by
    intro p hp
    by_cases heq : p = idx
    · rw [heq, Function.update_self] at hp
      exact absurd hp hnew
    · rw [Function.update_of_ne heq] at hp
      exact ⟨heq, hp⟩
  refine ⟨?_, ?_, ?_, hfree, ?_⟩
  · intro p hp
    obtain ⟨hne, hp'⟩ := hlarge p hp
    simpa only [Function.update_of_ne hne] using hT.live p hp'
  · intro p hp
    by_cases heq : p = idx
    · subst heq
      simp only [Function.update_self] at hp
      exact hidx hp
    · simp only [Function.update_of_ne heq] at hp
      exact hT.inside p hp
  · intro q p hq hlt hspan
    obtain ⟨hne, hq'⟩ := hlarge q hq
    simp only [Function.update_of_ne hne] at hspan
    have hin := hT.inner q p hq' hlt hspan
    have hpne : p ≠ idx := by
      rintro rfl
      exact hold hin.1
    simpa only [Function.update_of_ne hpne] using hin
  · intro p
    by_cases heq : p = idx
    · subst heq
      simpa only [Function.update_self] using hself
    · simpa only [Function.update_of_ne heq] using Nat.le_trans (hother p heq) (hT.entries p)

/-- A free run is claimed. -/
theorem claim (hT : TwoEntries P) {start n : Nat} {g : Generation} (hg : g ≠ .Free)
    (hrun : ∀ p, Within start n p → p < P.nPages ∧ (P.role p).generation = .Free)
    (hone : ∀ p, Within start n p → P.free.count p ≤ 1) :
    TwoEntries (P.after (.claim start n n g)) := by
  have hsmall : ∀ p, Within start n p → (P.role p).kind ≠ .Large :=
    fun p hp hk => hT.live p hk (hrun p hp).2
  refine ⟨?_, ?_, ?_, hT.listed, ?_⟩
  · intro p hp
    by_cases hin : Within start n p
    · simpa only [Pool.after, if_pos hin] using hg
    · simp only [Pool.after, if_neg hin] at hp ⊢
      exact hT.live p hp
  · intro p hp
    by_cases hin : Within start n p
    · exact (hrun p hin).1
    · simp only [Pool.after, if_neg hin] at hp
      exact hT.inside p hp
  · intro q p hq hlt hspan
    by_cases hqin : Within start n q
    · -- only the head of the new run has a span, and it is no longer than the run
      simp only [Pool.after, if_pos hqin] at hspan
      have hmod : n % 65536 ≤ n := Nat.mod_le n 65536
      by_cases hqs : q = start
      · rw [if_pos hqs] at hspan
        have hpin : Within start n p := by unfold Within; omega
        simp only [Pool.after, if_pos hpin]
        rw [if_neg (by omega)]
        exact ⟨trivial, rfl⟩
      · rw [if_neg hqs] at hspan
        omega
    · simp only [Pool.after, if_neg hqin] at hq hspan ⊢
      have hin := hT.inner q p hq hlt hspan
      have hpin : ¬ Within start n p := fun hpin => hsmall p hpin hin.1
      rw [if_neg hpin]
      exact hin
  · intro p
    by_cases hin : Within start n p
    · simp only [Pool.after, if_pos hin, if_neg hg]
      exact hone p hin
    · simp only [Pool.after, if_neg hin]
      exact hT.entries p

/-- The pages of a list are freed: each was in use, and no run keeps its head and loses another
page. -/
theorem drops (hT : TwoEntries P) {l : List Nat} (hnodup : l.Nodup)
    (hused : ∀ p ∈ l, (P.role p).generation ≠ .Free)
    (hruns : ∀ q p, (P.role q).kind = .Large → q < p → p < q + (P.role q).nSpan → q ∉ l → p ∉ l) :
    TwoEntries { P with
      role := fun p => if p ∈ l then PageRole.free else P.role p
      free := l.reverse ++ P.free } := by
  refine ⟨?_, ?_, ?_, ?_, ?_⟩
  · intro p hp
    by_cases hl : p ∈ l
    · simp only [if_pos hl] at hp
      cases hp
    · simp only [if_neg hl] at hp ⊢
      exact hT.live p hp
  · intro p hp
    by_cases hl : p ∈ l
    · simp only [if_pos hl] at hp
      exact absurd rfl hp
    · simp only [if_neg hl] at hp
      exact hT.inside p hp
  · intro q p hq hlt hspan
    by_cases hl : q ∈ l
    · simp only [if_pos hl] at hq
      cases hq
    · simp only [if_neg hl] at hq hspan
      simp only [if_neg (hruns q p hq hlt hspan hl)]
      exact hT.inner q p hq hlt hspan
  · intro p hp
    rw [List.mem_append, List.mem_reverse] at hp
    rcases hp with hl | hold
    · exact hT.inside p (hused p hl)
    · exact hT.listed p hold
  · intro p
    have hentries := hT.entries p
    rw [List.count_append, List.count_reverse]
    by_cases hl : p ∈ l
    · have hnew := List.nodup_iff_count_le_one.1 hnodup p
      rw [if_neg (hused p hl)] at hentries
      simp only [if_pos hl, PageRole.free, PageDesc.free, PageDesc.role, if_true]
      omega
    · simp only [if_neg hl]
      rw [List.count_eq_zero_of_not_mem hl]
      simpa using hentries

/-- A run goes to another generation. -/
theorem flipRun (hT : TwoEntries P) {head n : Nat} {g : Generation} (hg : g ≠ .Free)
    (hk : (P.role head).kind = .Large) (hn : (P.role head).nSpan = n) :
    TwoEntries (P.after (.flipRun head n g)) := by
  subst hn
  have hrole : ∀ p, ((P.after (.flipRun head (P.role head).nSpan g)).role p).kind =
      (P.role p).kind ∧
      ((P.after (.flipRun head (P.role head).nSpan g)).role p).nSpan = (P.role p).nSpan ∧
      (((P.after (.flipRun head (P.role head).nSpan g)).role p).generation = .Free ↔
        (P.role p).generation = .Free) := by
    intro p
    by_cases hin : Within head (P.role head).nSpan p
    · simp only [Pool.after, if_pos hin]
      exact ⟨trivial, trivial, iff_of_false hg (hT.live p (hT.member hk hin))⟩
    · simp only [Pool.after, if_neg hin]
      exact ⟨trivial, trivial, trivial⟩
  refine ⟨?_, ?_, ?_, hT.listed, ?_⟩
  · intro p hp
    rw [(hrole p).1] at hp
    exact fun hfree => hT.live p hp ((hrole p).2.2.1 hfree)
  · exact fun p hp => hT.inside p fun hfree => hp ((hrole p).2.2.2 hfree)
  · intro q p hq hlt hspan
    rw [(hrole q).1] at hq
    rw [(hrole q).2.1] at hspan
    rw [(hrole p).1, (hrole p).2.1]
    exact hT.inner q p hq hlt hspan
  · intro p
    simp only [(hrole p).2.2]
    exact hT.entries p

/-- The events that spare the list keep the number of entries. -/
theorem after (hT : TwoEntries P) {e : Event} (hspares : P.Spares e) (hen : P.Enabled e) :
    TwoEntries (P.after e) := by
  have hsmall : ∀ idx, (P.role idx).generation = .Free → (P.role idx).kind ≠ .Large :=
    fun idx hfree hk => hT.live idx hk hfree
  cases e with
  | exhaust => exact hT.shorter
  | lose idx => exact hT.shorter
  | «open» idx g k =>
      obtain ⟨hpop, hlt, hg, hk⟩ := hen
      have hnew : (PageDesc.fresh g k).role.kind ≠ .Large := by
        rcases hk with rfl | rfl <;> intro hlarge <;> cases hlarge
      have hself : P.popped.2.count idx ≤
          if (PageDesc.fresh g k).role.generation = .Free then 2 else 1 := by
        rw [if_neg (show ¬ (PageDesc.fresh g k).role.generation = .Free from hg)]
        exact (hT.popped_count idx).2 hpop
      exact hT.setSmall (hsmall idx (popped_free hpop)) hnew (fun _ => hlt) hT.shorter.listed hself
        fun p _ => (hT.popped_count p).1
  | claim start m n g =>
      obtain ⟨hg, -, -, hrun⟩ := hen
      rcases hspares with rfl | ⟨rfl, hone⟩
      · have hsame : P.after (.claim start 0 n g) = P := by
          refine after_claim_eq ?_
          funext p
          simp only [Pool.after]
          rw [if_neg (by unfold Within; omega)]
        rw [hsame]
        exact hT
      · exact hT.claim hg hrun hone
  | release idx =>
      obtain ⟨hlt, hk, hlive⟩ := hen
      have hfreed := hT.drops (List.nodup_singleton idx) (by simpa using hlive) (by
        intro q p hq hlt' hspan _ hp
        rw [List.mem_singleton] at hp
        subst hp
        exact hk (hT.inner q p hq hlt' hspan).1)
      rw [← foldl_drop] at hfreed
      exact hfreed
  | drop idx => cases hspares
  | releaseRun head n =>
      obtain ⟨hk, rfl, hn⟩ := hen
      have hmem : ∀ p, p ∈ List.range' head (P.role head).nSpan ↔
          Within head (P.role head).nSpan p := fun p => List.mem_range'_1
      have hfreed := hT.drops (List.nodup_range' (s := head) (n := (P.role head).nSpan)) ?_ ?_
      · rw [← foldl_drop, foldl_drop_run] at hfreed
        exact hfreed
      · exact fun p hp => hT.live p (hT.member hk ((hmem p).1 hp))
      · -- a page of two runs would make the head of the later one an inner page of the earlier
        intro q p hq hlt hspan hqout hp
        rw [hmem] at hqout hp
        unfold Within at hqout hp
        by_cases hbefore : q < head
        · have := (hT.inner q head hq hbefore (by omega)).2
          omega
        · exact hqout (by omega)
  | flip idx g =>
      obtain ⟨hg, hk, hlive⟩ := hen
      have hentries := hT.entries idx
      rw [if_neg hlive] at hentries
      exact hT.setSmall (r := { P.role idx with generation := g }) hk hk (fun _ => hT.inside idx hlive)
        hT.listed (by rw [if_neg hg]; exact hentries) fun _ _ => Nat.le_refl _
  | flipRun head n g => exact hT.flipRun hen.1 hen.2.1 hen.2.2.1
  | count minors promotes => exact ⟨hT.live, hT.inside, hT.inner, hT.listed, hT.entries⟩

/-- Cycles keep the number of entries, whatever they collect. -/
theorem cycles {Q : Pool} (hT : TwoEntries P) (hs : Steps CycleEvent P Q) : TwoEntries Q := by
  refine hs.keeps (I := TwoEntries) ?_ hT
  intro P e hT hcycle hen
  refine hT.after ?_ hen
  cases e with
  | claim => cases hcycle
  | drop => cases hcycle
  | _ => trivial

/-- The list is at most twice as long as the reservation. -/
theorem length_le (hT : TwoEntries P) : P.free.length ≤ 2 * P.nPages := by
  have hsub : P.free.toFinset ⊆ Finset.range P.nPages := by
    intro p hp
    rw [List.mem_toFinset] at hp
    exact Finset.mem_range.2 (hT.listed p hp)
  calc P.free.length = ∑ p ∈ P.free.toFinset, P.free.count p :=
        (List.sum_toFinset_count_eq_length P.free).symm
    _ ≤ ∑ _p ∈ P.free.toFinset, 2 := Finset.sum_le_sum fun p _ => hT.le_two p
    _ = P.free.toFinset.card * 2 := Finset.sum_const_nat fun _ _ => rfl
    _ ≤ P.nPages * 2 := by
        have hcard := Finset.card_le_card hsub
        rw [Finset.card_range] at hcard
        exact Nat.mul_le_mul_right 2 hcard
    _ = 2 * P.nPages := Nat.mul_comm _ _

end TwoEntries

end Pool

/-! ## Fresh heaps -/

theorem twoEntries_withReservation (base nPages : Nat) (os : Nat → Bool) (order : HashOrder) :
    (withReservation base nPages os order).pool.TwoEntries where
  live := by intro p hp; cases hp
  inside := fun p hp => absurd rfl hp
  inner := by intro q p hq; cases hq
  listed := fun p hp => List.mem_range.1 hp
  entries := by
    intro p
    have hone := List.nodup_iff_count_le_one.1 (List.nodup_range (n := nPages)) p
    exact Nat.le_trans hone (by split <;> omega)

theorem twoEntries_new (base youngBytes oldBytes : Nat) (os : Nat → Bool) (order : HashOrder) :
    (PageHeap.new base youngBytes oldBytes os order).pool.TwoEntries := by
  obtain ⟨n, cap, hnew⟩ := new_eq base youngBytes oldBytes os order
  rw [hnew]
  exact twoEntries_withReservation base n os order

/-! ## The two requests that need care -/

namespace PageHeap

/-- The run a large request finds has at most one entry for each of its pages. -/
def RunSpare (h : PageHeap) (nCells : Nat) (g : Generation) : Prop :=
  ∀ start, h.LargeAdmitted nCells g →
    h.findContiguousFreePages (largePages nCells) = some start →
    ∀ p, Pool.Within start (largePages nCells) p → h.freePageList.count p ≤ 1

/-- No inner page of a large object is in G0. -/
def NoYoungRuns (h : PageHeap) : Prop :=
  ∀ q p, (h.descs q).kind = .Large → q < p → p < q + (h.descs q).nSpan →
    (h.descs p).generation ≠ .G0

end PageHeap

namespace World

/-- The requests that keep the free-page list short. -/
def SparesEntries (L : HeapLayout) (w : World) : Op → Prop
  | .allocLarge g header =>
      ¬ w.heap.CutsRun (headerCells L header) g ∧ w.heap.RunSpare (headerCells L header) g
  | .minorWithStatic _ _ _ => w.heap.NoYoungRuns
  | _ => True

variable {L : HeapLayout} {w w' : World}

/-- A large request that is not cut claims the run it finds, or nothing. -/
theorem twoEntries_allocLarge {g : Generation} {header : Word} (hT : w.heap.pool.TwoEntries)
    (hg : g ≠ .Free) (hspares : w.SparesEntries L (.allocLarge g header))
    (hstep : w.step L (.allocLarge g header) = .ok w') : w'.heap.pool.TwoEntries := by
  obtain ⟨hcut, hspare⟩ := hspares
  cases hstep
  rw [withHeader_pool]
  rcases tryAllocLarge_claim w.heap (headerCells L header) hg with heq |
    ⟨start, m, hen, hafter, hgranted, hadmitted, hfind⟩
  · rw [heq]
    exact hT
  · cases hres : (w.heap.tryAllocLarge (headerCells L header) g).1 with
    | some cell =>
        have hm := hgranted (by rw [hres]; exact Option.some_ne_none cell)
        rw [hafter]
        exact hT.after (Or.inr ⟨hm, hspare start hadmitted hfind⟩) hen
    | none =>
        -- refused, and nothing was stamped
        have hclean := (tryAllocLarge_failedCleanly hg).2 hcut hres
        have hrole : (w.heap.tryAllocLarge (headerCells L header) g).2.pool.role =
            w.heap.pool.role := by
          funext p
          show ((w.heap.tryAllocLarge (headerCells L header) g).2.descs p).role =
            (w.heap.descs p).role
          rw [hclean.descs]
        rw [hafter] at hrole ⊢
        rw [Pool.after_claim_eq hrole]
        exact hT

/-- An early release that frees whole objects. -/
theorem twoEntries_released {P : Pool} (hT : P.TwoEntries) {l : List Nat} (hnodup : l.Nodup)
    (hl : ∀ p ∈ l, (P.role p).generation = .G0)
    (hruns : ∀ q p, (P.role q).kind = .Large → q < p → p < q + (P.role q).nSpan →
      (P.role p).generation ≠ .G0) :
    (l.foldl (fun P p => P.after (.drop p)) P).TwoEntries := by
  rw [Pool.foldl_drop]
  refine hT.drops hnodup (fun p hp => by rw [hl p hp]; decide) ?_
  intro q p hq hlt hspan _ hp
  exact hruns q p hq hlt hspan (hl p hp)

theorem step_twoEntries {op : Op} (hT : w.heap.pool.TwoEntries) (hvalid : op.valid = true)
    (hspares : w.SparesEntries L op) (hstep : w.step L op = .ok w') :
    w'.heap.pool.TwoEntries := by
  by_cases hlarge : ∃ g header, op = .allocLarge g header
  · obtain ⟨g, header, rfl⟩ := hlarge
    exact twoEntries_allocLarge hT (of_decide_eq_true hvalid) hspares hstep
  · by_cases hstatic : ∃ area ranges roots, op = .minorWithStatic area ranges roots
    · obtain ⟨area, ranges, roots, rfl⟩ := hstatic
      obtain ⟨l, h₁, V, r₁, hnodup, hl, hpool, hV, hminor, hend⟩ := step_minorWithStatic hstep
      have hreleased := twoEntries_released hT hnodup (fun p hp => (hl p hp).2) hspares
      rw [← hpool] at hreleased
      rw [hend]
      exact hreleased.cycles ((collectMinor_steps h₁ w.ext hV).value hminor)
    · push Not at hlarge hstatic
      exact hT.cycles (step_cycles hvalid hstep hlarge hstatic)

/-- In every run whose requests spare the list, no page is listed more than twice. -/
theorem free_list_bounded (hw : Driven L (SparesEntries L) w) :
    (∀ p, w.heap.freePageList.count p ≤ 2) ∧
      w.heap.freePageList.length ≤ 2 * w.heap.nPages := by
  have hT : w.heap.pool.TwoEntries := by
    induction hw with
    | start base nPages os order ext => exact twoEntries_withReservation base nPages os order
    | create base youngBytes oldBytes os order ext =>
        exact twoEntries_new base youngBytes oldBytes os order
    | step op _ hvalid hC hstep ih => exact step_twoEntries ih hvalid hC hstep
  exact ⟨hT.le_two, hT.length_le⟩

/-- A page that is claimed and released once is listed twice. -/
theorem free_list_bounded_twice : ∃ w, (lispWorld 1 []).run lispLayout
      [.allocLarge .G0 (heapHeader .String 8191), .collectMinor []] = some w ∧
    w.heap.freePageList = [0, 0] ∧ (∀ p, w.heap.freePageList.count p ≤ 2) ∧
      w.heap.freePageList.length ≤ 2 * w.heap.nPages := by
  have hlist : (((lispWorld 1 []).run lispLayout
      [.allocLarge .G0 (heapHeader .String 8191), .collectMinor []]).map
        fun w => w.heap.freePageList) = some [0, 0] := by decide +kernel
  obtain ⟨w, hrun, hfree⟩ := Option.map_eq_some_iff.1 hlist
  obtain ⟨hclaim, w₁, hstep₁, hrest⟩ := run_cons hrun
  obtain ⟨hcollect, w₂, hstep₂, hnil⟩ := run_cons hrest
  cases hnil
  have hspares : (lispWorld 1 []).SparesEntries lispLayout
      (.allocLarge .G0 (heapHeader .String 8191)) := by
    constructor
    · rintro ⟨-, start, -, -, i, -, -, hrefused⟩
      cases hrefused
    · intro start _ _ p _
      exact List.nodup_iff_count_le_one.1 (List.nodup_range (n := 1)) p
  have hw : Driven lispLayout (SparesEntries lispLayout) w :=
    ((Driven.start _ _ _ _ _).step _ (allows_valid hclaim) hspares hstep₁).step _
      (allows_valid hcollect) trivial hstep₂
  exact ⟨w, hrun, hfree, free_list_bounded hw⟩

/-! ### A leak

A one-page string that dies at once: the claim does not pop the page, the collection pushes it. -/

def leakOps : List Op :=
  [.allocLarge .G0 (heapHeader .String 8191), .collectMinor [],
    .allocLarge .G0 (heapHeader .String 8191), .collectMinor []]

/-- Twice over, and the only page of the heap is listed three times. -/
theorem free_list_leaks : ¬ ∀ w, Driven lispLayout (fun _ _ => True) w →
    (∀ p, w.heap.freePageList.count p ≤ 2) ∧
      w.heap.freePageList.length ≤ 2 * w.heap.nPages := by
  intro hall
  have hlist : (((lispWorld 1 []).run lispLayout leakOps).map fun w => w.heap.freePageList) =
      some [0, 0, 0] := by decide +kernel
  obtain ⟨w, hrun, hfree⟩ := Option.map_eq_some_iff.1 hlist
  have hw : Driven lispLayout (fun _ _ => True) w :=
    (run_reachable (lispWorld_reached [] (by decide)) hrun).driven
  have htwice := (hall w hw).1 0
  rw [hfree] at htwice
  exact absurd htwice (by decide)

end World

end NewGc
