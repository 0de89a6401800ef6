import NewGc.Requests
import NewGc.Cycles

/-!
# Worlds — sound worlds along a run

A fresh world is sound.  A collection whose passes are safe takes a settled world to a settled one:
the passes carry the heap over, and a cycle drops the pins at its end.  An evacuation called by the
client leaves the pins it found, so that the world it leaves is settled, and sound again once the
pins are dropped.
-/

namespace NewGc

open Library PageHeap

/-! ## Fresh worlds -/

/-- The table of a heap without objects. -/
def ObjTable.none : ObjTable := fun _ => Option.none

theorem withReservation_coherent (L : HeapLayout) {base nPages : Nat} (os : Nat → Bool)
    (order : HashOrder) (haligned : base % 8 = 0)
    (hfits : base + nPages * pageSizeBytes ≤ 2 ^ 64) :
    Coherent L (withReservation base nPages os order) ObjTable.none where
  shape :=
    { pages :=
        { aligned := haligned
          fits := hfits
          beyond := fun _ _ => rfl
          kindFree := fun _ => ⟨fun _ => rfl, fun _ => rfl⟩
          used := fun _ => Nat.zero_le _
          run := fun _ _ hk => by cases hk
          head := fun _ hk => by cases hk
          backing := ⟨fun _ hlive => absurd rfl hlive, fun _ hk => by cases hk⟩ }
      obj := fun _ _ hc => by cases hc
      start := fun _ hlive => absurd rfl hlive
      largeHead := fun _ hk => by cases hk
      ordered := fun _ _ _ _ hc => by cases hc
      moved := fun _ _ hK => by cases hK }
  regions := fun _ _ _ hq => by cases hq
  pins := fun _ hc => by cases hc
  explicit := fun _ he => by cases he
  inactive := rfl

/-! ## Settled worlds -/

/-- Every pin names a started cell of a page in use and has its bit on that page. -/
def PageHeap.PinsSettled (h : PageHeap) : Prop :=
  ∀ c ∈ h.pinnedCells, h.genAt c ≠ .Free ∧ h.isStartAt c = true ∧
    (h.descs (c / pageSizeCells)).isPinned (pinSlot c) = true

instance (h : PageHeap) : Decidable h.PinsSettled :=
  inferInstanceAs (Decidable (∀ c ∈ h.pinnedCells, _))

theorem PassOk.coherent {L : HeapLayout} {h : PageHeap} {T : ObjTable} (hP : PassOk L h T)
    (hpins : h.PinsSettled) : Coherent L h T where
  shape := hP.shape
  regions := hP.regions
  pins := by
    intro c hc
    obtain ⟨hlive, hstart, hbit⟩ := hpins c hc
    obtain ⟨o, ho⟩ := (hP.shape.isStartAt_iff hlive).1 hstart
    exact ⟨by rw [ho]; rfl, hbit⟩
  explicit := fun e he => (hP.explicit e he).1
  inactive := hP.inactive

/-- What comes after the last pass of a collection: nothing, or the end of a cycle, which drops the
pins. -/
def Ends (h h' : PageHeap) : Prop := h' = h ∨ DropsPins h h'

namespace Ends

variable {L : HeapLayout} {h h' : PageHeap} {T : ObjTable}

theorem passOk (hE : Ends h h') (hP : PassOk L h T) : PassOk L h' T := by
  rcases hE with rfl | hU
  · exact hP
  · exact (hP.unpinned hU).passOk

theorem mem (hE : Ends h h') : h'.mem = h.mem := by
  rcases hE with rfl | hU
  · rfl
  · exact hU.mem

theorem nPages (hE : Ends h h') : h'.nPages = h.nPages := by
  rcases hE with rfl | hU
  · rfl
  · exact hU.nPages

theorem base (hE : Ends h h') : h'.base = h.base := by
  rcases hE with rfl | hU
  · rfl
  · exact hU.base

theorem role (hE : Ends h h') (q : Nat) : (h.descs q).SameRole (h'.descs q) := by
  rcases hE with rfl | hU
  · exact PageDesc.SameRole.refl _
  · rw [hU.descs]
    exact ⟨rfl, rfl, rfl, rfl⟩

end Ends

namespace World

/-- The world between two requests: the heap as a pass needs it, and open buffers apart from each
other and from the objects. -/
structure Settled (L : HeapLayout) (w : World) (T : ObjTable) : Prop where
  heap : PassOk L w.heap T
  slabs : SlabsOk w.heap T w.slabs

theorem Sound.settled {L : HeapLayout} {w : World} {T : ObjTable} (hW : Sound L w T) :
    Settled L w T := ⟨hW.heap.passOk, hW.slabs⟩

theorem Settled.sound {L : HeapLayout} {w : World} {T : ObjTable} (hW : Settled L w T)
    (hpins : w.heap.PinsSettled) : Sound L w T := ⟨hW.heap.coherent hpins, hW.slabs⟩

/-- A collection has left the objects where `F` says, and no open buffers. -/
def Swept (L : HeapLayout) (w w' : World) (T : ObjTable) : Prop :=
  ∃ h₁ T' F, Carried L w.heap T h₁ T' F ∧ PassOk L h₁ T' ∧ Ends h₁ w'.heap ∧ w'.slabs = []

theorem Swept.settled {L : HeapLayout} {w w' : World} {T : ObjTable} (hS : Swept L w w' T) :
    ∃ T', Settled L w' T' := by
  obtain ⟨h₁, T', F, -, hP, hE, hslabs⟩ := hS
  refine ⟨T', hE.passOk hP, ?_⟩
  rw [hslabs]
  exact .nil _ _

theorem Keeps.sound {L : HeapLayout} {op : Op} {w w' : World} {T : ObjTable}
    (hK : Keeps L op w w' T) : ∃ T', Sound L w' T' := by
  obtain ⟨T', hW, -⟩ := hK
  exact ⟨T', hW⟩

/-- A cycle has swept the world and left no pin. -/
def SweptClean (L : HeapLayout) (w w' : World) (T : ObjTable) : Prop :=
  Swept L w w' T ∧ w'.heap.pinnedCells = []

theorem SweptClean.sound {L : HeapLayout} {w w' : World} {T : ObjTable}
    (hS : SweptClean L w w' T) : ∃ T', Sound L w' T' := by
  obtain ⟨T', hW⟩ := hS.1.settled
  refine ⟨T', hW.sound fun c hc => ?_⟩
  rw [hS.2] at hc
  exact absurd hc List.not_mem_nil

/-- A cycle that returns sweeps a world without open buffers, and drops the pins. -/
theorem swept_of_cycled {L : HeapLayout} {w w' : World} {T : ObjTable} {α : Type}
    {cycle : Except GcPanic (α × PageHeap × (Nat → Word))}
    (hcycle : Outcome GcPanic.IsOom cycle fun r => Cycled L w.heap T r.2.1)
    (hslabs : w.slabs.isEmpty = true)
    (hstep : (cycle >>= fun r => .ok { w with heap := r.2.1, ext := r.2.2 }) = .ok w') :
    SweptClean L w w' T := by
  cases cycle with
  | error e => cases hstep
  | ok r =>
      cases hstep
      obtain ⟨h₁, T', F, hcarried, hP, hE⟩ := hcycle
      exact ⟨⟨h₁, T', F, hcarried, hP, Or.inr hE.unpinned, List.isEmpty_iff.1 hslabs⟩,
        hE.unpinned.pinnedCells⟩

namespace Sound

variable {L : HeapLayout} {w w' : World} {T : ObjTable} {roots : List Nat}

theorem init {base nPages : Nat} (os : Nat → Bool) (order : HashOrder) (ext : Nat → Word)
    (haligned : base % 8 = 0) (hfits : base + nPages * pageSizeBytes ≤ 2 ^ 64) :
    Sound L (World.init base nPages os order ext) ObjTable.none :=
  ⟨withReservation_coherent L os order haligned hfits, .nil _ _⟩

theorem create {base youngBytes oldBytes : Nat} (os : Nat → Bool) (order : HashOrder)
    (ext : Nat → Word) (haligned : base % 8 = 0)
    (hfits : base + (PageHeap.new base youngBytes oldBytes os order).reservedBytes ≤ 2 ^ 64) :
    Sound L (World.create base youngBytes oldBytes os order ext) ObjTable.none := by
  obtain ⟨n, cap, heq⟩ := PageHeap.new_eq base youngBytes oldBytes os order
  have hI := @withReservation_coherent L base n os order haligned (by
    rw [heq] at hfits
    exact hfits)
  refine ⟨?_, .nil _ _⟩
  show Coherent L (PageHeap.new base youngBytes oldBytes os order) ObjTable.none
  rw [heq]
  exact hI.of_shape (hI.shape.congr rfl rfl (fun _ => PageDesc.SameRole.refl _) rfl rfl rfl
    fun _ => Or.inl)
    ⟨rfl, rfl, rfl, rfl, rfl, rfl, rfl⟩ rfl rfl

end Sound

namespace Settled

variable {L : HeapLayout} {w w' : World} {T : ObjTable} {roots : List Nat}

/-- The slots of an evacuation are safe when the contract admits them. -/
theorem slotSafe (hW : Settled L w T) {g : Generation} {slot : Slot}
    (hok : slotOk L w.heap g slot = true) : SlotSafe w.heap T g slot := by
  cases slot with
  | ext a => trivial
  | cell c =>
      obtain ⟨i, hi, hcell⟩ := List.any_eq_true.1 hok
      rw [hW.heap.shape.objAt_eq] at hcell
      cases hT : T (c - i) with
      | none => simp [hT] at hcell
      | some o =>
          rw [hT, Bool.and_eq_true, decide_eq_true_eq, decide_eq_true_eq] at hcell
          have hle : i ≤ c := Nat.lt_succ_iff.1 (List.mem_range.1 hi)
          exact ⟨c - i, o, i, hT, hcell.2, hcell.1, (Nat.sub_add_cancel hle).symm⟩

theorem evacuate (hW : Settled L w T) {g dest : Generation} {slots : List Slot}
    (hallowed : w.allows L (.evacuate g dest slots) = true)
    (hsafe : PassMeets L w.heap w.ext g dest (slotsVisitor L slots) (NoReuse L))
    (hstep : w.step L (.evacuate g dest slots) = .ok w') : Swept L w w' T := by
  simp only [allows, Bool.and_eq_true, decide_eq_true_eq] at hallowed
  obtain ⟨⟨⟨hg, hd⟩, hslabs⟩, hslots⟩ := hallowed
  simp only [step] at hstep
  have hpass := @PassOk.evacuates L w.heap T w.ext g dest slots [] hW.heap hg hd
    (fun s hs => hW.slotSafe (List.all_eq_true.1 hslots s hs))
    ⟨hsafe, fun _ _ _ D hD => absurd hD List.not_mem_nil⟩
  cases hevac : w.heap.evacuateWithRoots L w.ext g dest (slotsVisitor L slots) with
  | error e =>
      rw [hevac] at hstep
      cases hstep
  | ok r =>
      rw [hevac] at hstep
      cases hstep
      obtain ⟨hm, s, T', F, hP⟩ := hpass.value hevac
      exact ⟨r.2.1, T', F, hP.carried hd, hP.next, Or.inl rfl, List.isEmpty_iff.1 hslabs⟩

theorem collectMinor (hW : Settled L w T) (hallowed : w.allows L (.collectMinor roots) = true)
    (hsafe : MinorSafe L w.heap w.ext roots) (hstep : w.step L (.collectMinor roots) = .ok w') :
    SweptClean L w w' T :=
  swept_of_cycled (collectMinor_cycled hW.heap hsafe) hallowed hstep

theorem collectMajor (hW : Settled L w T) (hallowed : w.allows L (.collectMajor roots) = true)
    (hsafe : MajorSafe L w.heap w.ext roots) (hstep : w.step L (.collectMajor roots) = .ok w') :
    SweptClean L w w' T :=
  swept_of_cycled (collectMajor_cycled hW.heap hsafe) hallowed hstep

theorem collectFull (hW : Settled L w T) (hallowed : w.allows L (.collectFull roots) = true)
    (hsafe : FullSafe L w.heap w.ext roots) (hstep : w.step L (.collectFull roots) = .ok w') :
    SweptClean L w w' T :=
  swept_of_cycled (collectFull_cycled hW.heap hsafe) hallowed hstep

theorem collectAuto (hW : Settled L w T) {threshold : Nat}
    (hallowed : w.allows L (.collectAuto threshold roots) = true)
    (hsafe : AutoSafe L w.heap w.ext threshold roots)
    (hstep : w.step L (.collectAuto threshold roots) = .ok w') :
    SweptClean L w w' T :=
  swept_of_cycled (collectAuto_cycled hW.heap hsafe) hallowed hstep

end Settled

end World

end NewGc
