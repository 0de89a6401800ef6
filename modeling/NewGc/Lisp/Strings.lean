import Mathlib.Data.List.DropRight
import NewGc.Lisp.Schedules

/-!
# Strings — what is left of a text in the heap

A string is stored as whole words, eight bytes each, and nothing records where its last byte is:
the reader takes the payload and drops the zeros at the end.  The words stay as they are while the
client allocates, writes into vectors and collects, so a text reads back, from wherever it has been
moved to, up to its trailing zero bytes.
-/

namespace NewGc.Lisp

/-! ## Bytes in words -/

theorem packWord_cons (b : UInt8) (bytes : List UInt8) :
    Heap.packWord (b :: bytes) = (Heap.packWord bytes <<< 8) ||| b.toBitVec.setWidth 64 := rfl

/-- The `i`-th byte of a packed word. -/
theorem byte_packWord (bytes : List UInt8) (i : Nat) (hi : i < 8) :
    UInt8.ofBitVec ((Heap.packWord bytes >>> (8 * i)).setWidth 8) = bytes[i]?.getD 0 := by
  induction bytes generalizing i with
  | nil =>
      have hzero : Heap.packWord [] = 0#64 := rfl
      rw [hzero]
      simp
  | cons b bytes ih =>
      rw [packWord_cons]
      cases i with
      | zero =>
          apply UInt8.eq_of_toBitVec_eq
          apply BitVec.eq_of_getLsbD_eq
          intro k hk
          simp
      | succ i =>
          rw [List.getElem?_cons_succ, ← ih i (Nat.lt_of_succ_lt hi)]
          congr 1
          apply BitVec.eq_of_getLsbD_eq
          intro k hk
          -- eight bits further up: past the byte that was put in last
          have hback : 8 * (i + 1) + k - 8 = 8 * i + k := by omega
          have hbelow : 8 * (i + 1) + k < 64 := by omega
          have habove : ¬ 8 * (i + 1) + k < 8 := by omega
          have hbyte : b.toBitVec.getLsbD (8 * (i + 1) + k) = false :=
            BitVec.getLsbD_of_ge _ _ (Nat.le_of_not_lt habove)
          have hin : 8 * i + k < 64 := by omega
          simp [hback, hbelow, habove, hbyte, BitVec.getLsbD_eq_getElem hin]

/-- A packed word is its bytes and zeros up to eight. -/
theorem unpack_packWord (bytes : List UInt8) (hlen : bytes.length ≤ 8) :
    Heap.unpackWord (Heap.packWord bytes) = bytes ++ List.replicate (8 - bytes.length) 0 := by
  apply List.ext_getElem?
  intro i
  unfold Heap.unpackWord
  rw [List.getElem?_map, List.getElem?_append]
  by_cases hi : i < 8
  · rw [List.getElem?_range hi, Option.map_some, byte_packWord bytes i hi]
    split
    · rename_i hlt
      rw [List.getElem?_eq_getElem hlt, Option.getD_some]
    · rename_i hge
      rw [List.getElem?_eq_none (Nat.le_of_not_lt hge),
        List.getElem?_replicate_of_lt (by omega), Option.getD_none]
  · rw [List.getElem?_eq_none (by rw [List.length_range]; omega), if_neg (by omega),
      List.getElem?_eq_none (by rw [List.length_replicate]; omega), Option.map_none]

/-- The payload of a text, read byte by byte: eight bytes at a time. -/
theorem unpack_chunks : ∀ (n : Nat) (bytes : List UInt8), bytes.length ≤ 8 * n →
    (List.range n).flatMap (fun i => Heap.unpackWord
      (Heap.packWord ((bytes.drop (8 * i)).take 8))) =
        bytes ++ List.replicate (8 * n - bytes.length) 0
  | 0, bytes, hlen => by
      have hnil : bytes = [] := List.eq_nil_of_length_eq_zero (Nat.le_zero.1 hlen)
      rw [hnil]
      rfl
  | n + 1, bytes, hlen => by
      have hrest : (bytes.drop 8).length ≤ 8 * n := by
        rw [List.length_drop]
        omega
      have ih := unpack_chunks n (bytes.drop 8) hrest
      have hshift : (fun i => Heap.unpackWord
            (Heap.packWord ((bytes.drop (8 * (i + 1))).take 8))) =
          fun i => Heap.unpackWord (Heap.packWord (((bytes.drop 8).drop (8 * i)).take 8)) := by
        funext i
        rw [List.drop_drop, Nat.mul_succ, Nat.add_comm]
      rw [List.range_succ_eq_map, List.flatMap_cons, List.flatMap_map, hshift, ih,
        Nat.mul_zero, List.drop_zero, unpack_packWord _ (List.length_take_le 8 bytes),
        List.length_take, List.length_drop]
      by_cases hshort : bytes.length ≤ 8
      · rw [List.take_of_length_le hshort, List.drop_of_length_le hshort, List.nil_append,
          List.append_assoc, ← List.replicate_add]
        congr 2
        omega
      · have hfull : 8 - min 8 bytes.length = 0 := by omega
        rw [hfull, List.replicate_zero, List.append_nil, ← List.append_assoc,
          List.take_append_drop]
        congr 2
        omega

/-- Zeros at the end are dropped. -/
theorem rdropWhile_zeros (bytes : List UInt8) :
    ∀ n, (bytes ++ List.replicate n 0).rdropWhile (· == 0) = bytes.rdropWhile (· == 0)
  | 0 => by rw [List.replicate_zero, List.append_nil]
  | n + 1 => by
      rw [List.replicate_succ', ← List.append_assoc, List.rdropWhile_concat_pos _ _ _ rfl,
        rdropWhile_zeros bytes n]

/-! ## A text in the heap -/

variable {σ : Type} {H : Heap σ}

/-- The header of an object agrees with the tag of its word. -/
theorem Heap.Fits.header {s : σ} {w : Word} {b : Option Block} (h : H.Fits s w b)
    (hne : Tag.fromBits w ≠ .Cons) :
    (Tag.fromBits w = .Vector ∧ headerTy (H.cell s w 0) = .ok .Vector) ∨
      (Tag.fromBits w = .String ∧ headerTy (H.cell s w 0) = .ok .String) := by
  match b, h with
  | some .cons, htag => exact absurd htag hne
  | some (.boxed _), ⟨_, hheader⟩ => exact hheader

/-- The word names a string with this payload. -/
structure TextAt (C : Contract H) (s : σ) (w : Word) (payload : List Word) : Prop where
  fits : H.Fits s w (C.blocks s (addrOf w))
  tag : Tag.fromBits w = .String
  length : H.vectorLen s w = payload.length
  cells : ∀ i (hi : i < payload.length), H.cell s w (1 + i) = payload[i]

namespace TextAt

variable {C : Contract H} {s s' : σ} {w v : Word} {payload : List Word}

theorem not_cons (hT : TextAt C s w payload) : Tag.fromBits w ≠ .Cons := by
  rw [hT.tag]
  decide

theorem extent (hT : TextAt C s w payload) : H.extent s w = 1 + payload.length := by
  rw [HeapsAlike.extent_eq hT.not_cons, hT.length]

/-- A string has no fields. -/
theorem not_field (hT : TextAt C s w payload) (i : Nat) : ¬ IsField w i := by
  rintro (hcons | ⟨hvector, -⟩)
  · exact hT.not_cons hcons
  · rw [hT.tag] at hvector
    cases hvector

/-- The string itself leads nowhere. -/
theorem wellRooted (hT : TextAt C s w payload) : WellRooted H C.blocks s [w] := by
  have honly : ∀ u, LeadsTo H s [w] u → u = w := by
    intro u hu
    induction hu with
    | root hmem => exact List.mem_singleton.1 hmem
    | field _ _ hfield _ ih =>
        rw [ih] at hfield
        exact absurd hfield (hT.not_field _)
  constructor
  · intro u hu
    rw [honly u hu]
    exact hT.fits
  · intro u u' hu hu' _
    exact (honly u hu).trans (honly u' hu').symm

/-- What `string_bytes` finds. -/
theorem stringBytes {bytes : List UInt8} (hT : TextAt C s w (Heap.packBytes bytes)) :
    H.stringBytes s w = bytes.rdropWhile (· == 0) := by
  have hcount : (Heap.packBytes bytes).length = (bytes.length + 7) / 8 := by
    unfold Heap.packBytes
    rw [List.length_map, List.length_range]
  have hbytes : (List.range ((bytes.length + 7) / 8)).flatMap
        (fun i => Heap.unpackWord (H.load s (addrOf w + 8 * (1 + i)))) =
      bytes ++ List.replicate (8 * ((bytes.length + 7) / 8) - bytes.length) 0 := by
    rw [← unpack_chunks ((bytes.length + 7) / 8) bytes (by omega)]
    refine List.flatMap_congr fun i hi => congrArg Heap.unpackWord ?_
    have hlt : i < (Heap.packBytes bytes).length := by
      rw [hcount]
      exact List.mem_range.1 hi
    have hword : (Heap.packBytes bytes)[i] = Heap.packWord ((bytes.drop (8 * i)).take 8) := by
      simp [Heap.packBytes]
    exact (hT.cells i hlt).trans hword
  have hlen : headerLengthCells (H.load s (addrOf w)) = (bytes.length + 7) / 8 :=
    hT.length.trans hcount
  unfold Heap.stringBytes
  rw [hlen]
  dsimp only
  rw [hbytes]
  exact rdropWhile_zeros bytes _

/-- The same cells under another word. -/
theorem moved (hT : TextAt C s w payload) (hfits : H.Fits s' v (C.blocks s' (addrOf v)))
    (htag : Tag.fromBits v = Tag.fromBits w)
    (hcells : ∀ i, i < H.extent s w → H.cell s' v i = H.cell s w i) : TextAt C s' v payload where
  fits := hfits
  tag := htag.trans hT.tag
  length := (congrArg headerLengthCells (hcells 0 (Heap.extent_pos s w))).trans hT.length
  cells := by
    intro i hi
    have hin : 1 + i < H.extent s w := by
      rw [hT.extent]
      exact Nat.add_lt_add_left hi 1
    rw [hcells (1 + i) hin, hT.cells i hi]

/-- The same cells where they were. -/
theorem kept (hT : TextAt C s w payload)
    (hblock : C.blocks s' (addrOf w) = C.blocks s (addrOf w))
    (hcells : ∀ i, i < H.extent s w → H.cell s' w i = H.cell s w i) : TextAt C s' w payload := by
  refine hT.moved ?_ rfl hcells
  rw [hblock]
  exact hT.fits.congr fun _ => hcells 0 (Heap.extent_pos s w)

theorem untouched (hT : TextAt C s w payload) (hU : Untouched H C.blocks s s') :
    TextAt C s' w payload :=
  hT.kept (by rw [hU.blocks]) fun _ _ => hU.load _

/-- Another block is handed out and filled. -/
theorem filled (hT : TextAt C s w payload) {p : Nat} {b : Block} {ws : List Word}
    (hF : Filled C s p b ws s') : TextAt C s' w payload := by
  obtain ⟨b', hb', -⟩ := hT.fits.block
  refine hT.kept ?_ fun i hi => hF.kept hT.fits hi
  rw [hb', (hF.others hb').2]

/-- A vector lies elsewhere: the headers differ. -/
theorem apart_vector (hT : TextAt C s w payload) {u : Word}
    (hu : H.Fits s u (C.blocks s (addrOf u))) (htag : Tag.fromBits u = .Vector) :
    addrOf u ≠ addrOf w := by
  intro heq
  have hcell : H.cell s u 0 = H.cell s w 0 := by
    unfold Heap.cell
    rw [heq]
  have hcons : Tag.fromBits u ≠ .Cons := by
    rw [htag]
    decide
  rcases hu.header hcons with ⟨-, hvector⟩ | ⟨hstring, -⟩
  · rcases hT.fits.header hT.not_cons with ⟨hvector', -⟩ | ⟨-, hstring⟩
    · rw [hT.tag] at hvector'
      cases hvector'
    · rw [hcell, hstring] at hvector
      cases hvector
  · rw [htag] at hstring
    cases hstring

/-- A vector is written to. -/
theorem vectorSet (hT : TextAt C s w payload) {u : Word} {idx : Nat} {a : Value}
    (hu : H.Fits s u (C.blocks s (addrOf u))) (htag : Tag.fromBits u = .Vector)
    (hset : H.vectorSet s u idx a = some s') : TextAt C s' w payload := by
  have hapart := hT.apart_vector hu htag
  have hne : u ≠ w := fun h => hapart (congrArg addrOf h)
  have hcons : Tag.fromBits u ≠ .Cons := by
    rw [htag]
    decide
  unfold Heap.vectorSet at hset
  split at hset
  · cases hset
  · rename_i hlt
    have hi : 1 + idx < H.extent s u := by
      rw [HeapsAlike.extent_eq hcons]
      exact Nat.add_lt_add_left (Nat.lt_of_not_le hlt) 1
    cases hword : valueToWord a with
    | none =>
        rw [hword] at hset
        cases hset
    | some raw =>
        rw [hword] at hset
        cases hset
        refine untouched (hT.kept ?_ fun i hin => ?_) (C.markCardAt _ _)
        · rw [C.blocks_store]
        · rw [C.cell_store hu hT.fits hi hin (fun h => absurd h hapart) raw]
          exact if_neg fun h => hne h.1.symm

/-- A collection that holds the string in a root word. -/
theorem relocated (hT : TextAt C s w payload) {roots roots' : List Word} {i : Nat}
    {r : Option (List Word × σ)} (hrelocates : Relocates H C.blocks s roots r)
    (hroots : WellRooted H C.blocks s roots) (hw : roots[i]? = some w)
    (hr : r = some (roots', s')) (hv : roots'[i]? = some v) : TextAt C s' v payload := by
  obtain ⟨ρ, hmap, hR⟩ := hrelocates hroots roots' s' hr
  rw [hmap, List.getElem?_map, hw, Option.map_some, Option.some.injEq] at hv
  rw [← hv]
  have hroot : LeadsTo H s roots w := .root (List.mem_of_getElem? hw)
  exact hT.moved (hR.fits w hroot) (hR.tag w hroot) fun i hi =>
    hR.plain w i hroot hi fun h => hT.not_field i h.1

end TextAt

/-! ## Allocation -/

section Allocation

variable (C : Contract H) {s s' : σ} {w : Word}

/-- `alloc_pair` hands out a block and fills it. -/
theorem allocPair_fills {a b : Value} (halloc : H.allocPair s a b = some (w, s')) :
    ∃ p b ws s₁, Filled C s p b ws s₁ ∧ Untouched H C.blocks s₁ s' := by
  unfold Heap.allocPair at halloc
  cases hs : H.tryAllocConsIn s with
  | mk o s₁ =>
      rw [hs] at halloc
      cases o with
      | none => cases halloc
      | some p =>
          obtain ⟨car, -, halloc⟩ := Option.bind_eq_some_iff.1 halloc
          obtain ⟨cdr, -, halloc⟩ := Option.bind_eq_some_iff.1 halloc
          cases halloc
          exact ⟨p, .cons, [car, cdr], _, C.filled (C.allocCons hs) _ (Nat.le_succ 1) rfl,
            C.markCardAt _ _⟩

/-- `alloc_vector` hands out a block and fills it. -/
theorem allocVector_fills {n : Nat} {init : Value}
    (halloc : H.allocVector s n init = some (w, s')) :
    ∃ p b ws, Filled C s p b ws s' := by
  unfold Heap.allocVector at halloc
  cases hs : H.tryAllocBoxedIn s (1 + n) with
  | mk o s₁ =>
      rw [hs] at halloc
      cases o with
      | none => cases halloc
      | some p =>
          obtain ⟨raw, -, halloc⟩ := Option.bind_eq_some_iff.1 halloc
          cases halloc
          have hpos : 1 ≤ 1 + n := Nat.le_add_right 1 n
          refine ⟨p, .boxed (1 + n), _, C.filled (C.allocBoxed hpos hs) _ hpos ?_⟩
          rw [List.length_cons, List.length_replicate, Nat.add_comm]
          rfl

/-- `alloc_string` hands out a block and fills it with the header and the payload. -/
theorem allocString_fills {bytes : List UInt8} (halloc : H.allocString s bytes = some (w, s')) :
    ∃ p, w = fromPtr p .String ∧
      Filled C s p (.boxed (1 + (Heap.packBytes bytes).length))
        (heapHeader .String (Heap.packBytes bytes).length :: Heap.packBytes bytes) s' := by
  unfold Heap.allocString at halloc
  dsimp only at halloc
  cases hs : H.tryAllocBoxedIn s (1 + (Heap.packBytes bytes).length) with
  | mk o s₁ =>
      rw [hs] at halloc
      cases o with
      | none => cases halloc
      | some p =>
          cases halloc
          have hpos : 1 ≤ 1 + (Heap.packBytes bytes).length := Nat.le_add_right 1 _
          refine ⟨p, rfl, C.filled (C.allocBoxed hpos hs) _ hpos ?_⟩
          rw [List.length_cons, Nat.add_comm]
          rfl

/-- A new string. -/
theorem allocString_text {bytes : List UInt8} (hsize : (bytes.length + 7) / 8 ≤ maxObjectCells)
    (halloc : H.allocString s bytes = some (w, s')) :
    TextAt C s' w (Heap.packBytes bytes) := by
  obtain ⟨p, rfl, hF⟩ := allocString_fills C halloc
  have haddr : addrOf (fromPtr p .String) = p := addrOf_fromPtr hF.aligned .String hF.below
  have hcell : ∀ {i x},
      (heapHeader .String (Heap.packBytes bytes).length :: Heap.packBytes bytes)[i]? = some x →
        H.cell s' (fromPtr p .String) i = x := by
    intro i x hx
    unfold Heap.cell
    rw [haddr]
    exact hF.cells hx
  have hlength : headerLengthCells (heapHeader .String (Heap.packBytes bytes).length) =
      (Heap.packBytes bytes).length := by
    have hle : (Heap.packBytes bytes).length ≤ maxObjectCells := by
      unfold Heap.packBytes
      rw [List.length_map, List.length_range]
      exact hsize
    have h := headerLengthCells_withGcBits .String hle 0
    rwa [withGcBits_zero] at h
  constructor
  · exact hF.fits ⟨Nat.add_le_add_left (headerLengthCells_le _ _) 1,
      Or.inr ⟨rfl, headerTy_heapHeader _ _⟩⟩
  · exact fromBits_fromPtr hF.aligned .String
  · exact (congrArg headerLengthCells (hcell List.getElem?_cons_zero)).trans hlength
  · intro i hi
    rw [Nat.add_comm]
    refine hcell ?_
    rw [List.getElem?_cons_succ, List.getElem?_eq_getElem hi]

end Allocation

/-! ## Texts through the life of a heap -/

/-- The client goes on, from the heap `s` to the heap `t`, and holds `w` in a root slot through
every collection; the slot holds `v` in the end. -/
inductive Outlives (C : Contract H) (s : σ) (w : Word) : σ → Word → Prop
  | refl : Outlives C s w s w
  | allocPair {t t' : σ} {v u : Word} {a b : Value} (h : Outlives C s w t v)
      (halloc : H.allocPair t a b = some (u, t')) : Outlives C s w t' v
  | allocVector {t t' : σ} {v u : Word} {n : Nat} {init : Value} (h : Outlives C s w t v)
      (halloc : H.allocVector t n init = some (u, t')) : Outlives C s w t' v
  | allocString {t t' : σ} {v u : Word} {bytes : List UInt8} (h : Outlives C s w t v)
      (halloc : H.allocString t bytes = some (u, t')) : Outlives C s w t' v
  | vectorSet {t t' : σ} {v u : Word} {idx : Nat} {a : Value} (h : Outlives C s w t v)
      (hu : H.Fits t u (C.blocks t (addrOf u))) (htag : Tag.fromBits u = .Vector)
      (hset : H.vectorSet t u idx a = some t') : Outlives C s w t' v
  | setGcBudgetMinBytes {t : σ} {v : Word} (n : Nat) (h : Outlives C s w t v) :
      Outlives C s w (H.setGcBudgetMinBytes t n) v
  | recomputeAutoTrigger {t : σ} {v : Word} (h : Outlives C s w t v) :
      Outlives C s w (H.recomputeAutoTrigger t) v
  | collect {t t' : σ} {v v' : Word} {kind : Collection} {roots roots' : List Word} {i : Nat}
      (h : Outlives C s w t v) (hroots : WellRooted H C.blocks t roots)
      (hv : roots[i]? = some v) (hcollect : H.collect kind t roots = some (roots', t'))
      (hv' : roots'[i]? = some v') : Outlives C s w t' v'
  | pollSafepoint {t t' : σ} {v v' : Word} {roots roots' : List Word} {i : Nat}
      (h : Outlives C s w t v) (hroots : WellRooted H C.blocks t roots)
      (hv : roots[i]? = some v) (hpoll : H.pollSafepoint t roots = some (roots', t'))
      (hv' : roots'[i]? = some v') : Outlives C s w t' v'

/-- Whatever the client does, the string keeps its words. -/
theorem Outlives.text {C : Contract H} {s t : σ} {w v : Word} {payload : List Word}
    (h : Outlives C s w t v) (hT : TextAt C s w payload) : TextAt C t v payload := by
  induction h with
  | refl => exact hT
  | allocPair _ halloc ih =>
      obtain ⟨p, b, ws, s₁, hF, hU⟩ := allocPair_fills C halloc
      exact (ih.filled hF).untouched hU
  | allocVector _ halloc ih =>
      obtain ⟨p, b, ws, hF⟩ := allocVector_fills C halloc
      exact ih.filled hF
  | allocString _ halloc ih =>
      obtain ⟨p, -, hF⟩ := allocString_fills C halloc
      exact ih.filled hF
  | vectorSet _ hu htag hset ih => exact ih.vectorSet hu htag hset
  | setGcBudgetMinBytes n _ ih => exact ih.untouched (C.setGcBudgetMinBytes _ n)
  | recomputeAutoTrigger _ ih => exact ih.untouched (C.recomputeAutoTrigger _)
  | collect _ hroots hv hcollect hv' ih =>
      exact ih.relocated (C.collect _ _ _) hroots hv hcollect hv'
  | pollSafepoint _ hroots hv hpoll hv' ih =>
      exact ih.relocated (C.pollSafepoint _ _) hroots hv hpoll hv'

/-- A text reads back, wherever it has been moved to, without the zero bytes at its end; so it reads
back as it was exactly when it does not end in one. -/
theorem string_outlives_collections (C : Contract H) {s s₁ t : σ} {w v : Word} {bytes : List UInt8}
    (hsize : (bytes.length + 7) / 8 ≤ maxObjectCells)
    (halloc : H.allocString s bytes = some (w, s₁)) (hlives : Outlives C s₁ w t v) :
    H.stringBytes t v = bytes.rdropWhile (· == 0) ∧
      (H.stringBytes t v = bytes ↔ bytes.getLast? ≠ some 0) := by
  have htext : H.stringBytes t v = bytes.rdropWhile (· == 0) :=
    (hlives.text (allocString_text C hsize halloc)).stringBytes
  refine ⟨htext, ?_⟩
  rw [htext, List.rdropWhile_eq_self_iff]
  constructor
  · intro hlast h0
    obtain ⟨front, rfl⟩ := List.getLast?_eq_some_iff.1 h0
    exact hlast (List.append_ne_nil_of_right_ne_nil _ (List.cons_ne_nil _ _)) (by simp)
  · intro hlast hne hzero
    refine hlast ?_
    rw [List.getLast?_eq_some_getLast hne, eq_of_beq hzero]

/-- Two letters and a zero byte, moved by a collection: the letters are left. -/
theorem string_outlives_collections_moved : ∃ (w v : Word) (s₁ t : Arena),
    (arena .Direct false).allocString .empty [104, 105, 0] = some (w, s₁) ∧ v ≠ w ∧
      (arena .Direct false).stringBytes t v = [104, 105] := by
  have hrun : (((arena .Direct false).allocString .empty [104, 105, 0]).bind fun r =>
      (r.2.moveAll [r.1]).map fun q => q.1.length == 1 && q.1[0]? != some r.1) = some true := by
    decide +kernel
  obtain ⟨⟨w, s₁⟩, halloc, hrun⟩ := Option.bind_eq_some_iff.1 hrun
  obtain ⟨⟨roots, t⟩, hmove, hcheck⟩ := Option.map_eq_some_iff.1 hrun
  rw [Bool.and_eq_true, beq_iff_eq, bne_iff_ne] at hcheck
  have hlen : 0 < roots.length := by
    rw [hcheck.1]
    exact Nat.one_pos
  have hv : roots[0]? = some roots[0] := List.getElem?_eq_getElem hlen
  have hT := allocString_text (arenaContract .Direct false) (by decide) halloc
  have hcollect : (arena .Direct false).collect .minor s₁ [w] = some (roots, t) := hmove
  have hlives := Outlives.collect .refl hT.wellRooted rfl hcollect hv
  have hread := string_outlives_collections (arenaContract .Direct false) (by decide) halloc hlives
  refine ⟨w, roots[0], s₁, t, halloc, ?_, hread.1.trans (by decide)⟩
  rintro heq
  exact hcheck.2 (hv.trans (congrArg some heq))

end NewGc.Lisp
