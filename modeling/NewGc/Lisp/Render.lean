import NewGc.Lisp.Reader
import NewGc.Library.Outcome

/-!
# Render — what the reader accepts, and how it is written

The reader works on bytes.  On the bytes of a text every scan stops between two characters, so no
decoding fails; the forms it makes are those that can be written, and written forms read back
whatever blanks stand between them.
-/

namespace NewGc.Lisp

/-! ## Characters as bytes -/

/-- The bytes of a run of characters. -/
def encode (cs : List Char) : List UInt8 := cs.flatMap String.utf8EncodeChar

namespace Reader

@[simp] theorem encode_nil : encode [] = [] := rfl

@[simp] theorem encode_cons (c : Char) (cs : List Char) :
    encode (c :: cs) = String.utf8EncodeChar c ++ encode cs := rfl

@[simp] theorem encode_append (cs ds : List Char) : encode (cs ++ ds) = encode cs ++ encode ds :=
  List.flatMap_append

/-- A text is the bytes of its characters. -/
theorem bytesOf_eq (src : String) : bytesOf src = encode src.toList := by
  have hbytes : src.toUTF8 = src.toList.utf8Encode := String.utf8Encode_toList.symm
  unfold bytesOf
  rw [hbytes]
  exact List.toList_data_toByteArray

theorem readAll_eq (src : String) : readAll src = readForms (encode src.toList).length
    (2 * (encode src.toList).length + 2) [] (encode src.toList) := by
  unfold readAll
  rw [bytesOf_eq]

/-- The bytes of characters decode. -/
theorem fromUtf8_encode (cs : List Char) : fromUtf8 (encode cs) = .ok (String.ofList cs) := by
  have hbytes : (⟨(encode cs).toArray⟩ : ByteArray) = cs.utf8Encode := by
    apply ByteArray.ext
    apply Array.ext'
    exact List.toList_data_toByteArray.symm
  unfold fromUtf8
  rw [hbytes]
  have hdecode : String.fromUTF8? cs.utf8Encode = some (String.ofList cs) := by
    unfold String.fromUTF8?
    rw [dif_pos ByteArray.isValidUTF8_utf8Encode]
    congr 1
  rw [hdecode]

/-- A character of one byte. -/
def IsAscii (c : Char) : Prop := c.val.toNat ≤ 127

instance (c : Char) : Decidable (IsAscii c) := inferInstanceAs (Decidable (_ ≤ _))

theorem encode_ascii {c : Char} (hc : IsAscii c) : String.utf8EncodeChar c = [byte c] := by
  have hle : c.val.toNat ≤ 0x7f := hc
  unfold String.utf8EncodeChar
  rw [if_pos hle]
  rfl

/-- Every byte of a longer character is above the ASCII ones. -/
theorem wide_bytes {c : Char} (hc : ¬ IsAscii c) :
    ∀ b ∈ String.utf8EncodeChar c, 128 ≤ b.toNat := by
  have hgt : ¬ c.val.toNat ≤ 0x7f := hc
  intro b hb
  unfold String.utf8EncodeChar at hb
  rw [if_neg hgt] at hb
  split at hb
  · simp only [List.mem_cons, List.not_mem_nil, or_false] at hb
    rcases hb with rfl | rfl <;> simp only [UInt8.toNat_ofNat'] <;> omega
  · split at hb
    · simp only [List.mem_cons, List.not_mem_nil, or_false] at hb
      rcases hb with rfl | rfl | rfl <;> simp only [UInt8.toNat_ofNat'] <;> omega
    · simp only [List.mem_cons, List.not_mem_nil, or_false] at hb
      rcases hb with rfl | rfl | rfl | rfl <;> simp only [UInt8.toNat_ofNat'] <;> omega

/-- A byte above the ASCII ones is none of the bytes the reader looks for. -/
theorem byte_ne {b : UInt8} (hb : 128 ≤ b.toNat) {c : Char} (hc : IsAscii c) : b ≠ byte c := by
  rintro rfl
  have hle : c.val.toNat ≤ 127 := hc
  have heq : (byte c).toNat = c.val.toNat % 256 := rfl
  omega

theorem not_whitespace {b : UInt8} (hb : 128 ≤ b.toNat) : isAsciiWhitespace b = false := by
  have hne : ∀ c, IsAscii c → decide (b = byte c) = false := fun c hc =>
    decide_eq_false (byte_ne hb hc)
  unfold isAsciiWhitespace
  simp (disch := decide) only [hne, Bool.or_self]

theorem not_delimiter {b : UInt8} (hb : 128 ≤ b.toNat) : isDelimiter b = false := by
  have hne : ∀ c, IsAscii c → decide (b = byte c) = false := fun c hc =>
    decide_eq_false (byte_ne hb hc)
  unfold isDelimiter
  simp (disch := decide) only [not_whitespace hb, hne, Bool.or_self]

theorem not_digit {b : UInt8} (hb : 128 ≤ b.toNat) : isAsciiDigit b = false := by
  unfold isAsciiDigit
  have hgt : ¬ b ≤ byte '9' := by
    rw [UInt8.le_iff_toNat_le]
    have heq : (byte '9').toNat = 57 := rfl
    omega
  rw [decide_eq_false hgt, Bool.and_false]

/-- The first byte of a character. -/
theorem encode_head (c : Char) (cs : List Char) : ∃ b rest, encode (c :: cs) = b :: rest ∧
    ((IsAscii c ∧ b = byte c ∧ rest = encode cs) ∨
      (¬ IsAscii c ∧ 128 ≤ b.toNat ∧ ∃ more : List UInt8, rest = more ++ encode cs ∧
        ∀ b ∈ more, 128 ≤ b.toNat)) := by
  by_cases hc : IsAscii c
  · refine ⟨byte c, encode cs, ?_, Or.inl ⟨hc, rfl, rfl⟩⟩
    rw [encode_cons, encode_ascii hc]
    rfl
  · have hwide := wide_bytes hc
    cases hbytes : String.utf8EncodeChar c with
    | nil => exact absurd hbytes String.utf8EncodeChar_ne_nil
    | cons b more =>
        rw [hbytes] at hwide
        refine ⟨b, more ++ encode cs, ?_, Or.inr ⟨hc, hwide b List.mem_cons_self, more, rfl,
          fun x hx => hwide x (List.mem_cons_of_mem _ hx)⟩⟩
        rw [encode_cons, hbytes]
        rfl

/-- Characters that end an atom. -/
def endsAtom (c : Char) : Bool := decide (IsAscii c) && isDelimiter (byte c)

/-- Characters that the reader skips. -/
def isBlank (c : Char) : Bool := decide (IsAscii c) && isAsciiWhitespace (byte c)

/-! ## The scans, on text -/

theorem skipFrom_cons (b : UInt8) (rest : List UInt8) : skipFrom false (b :: rest) =
    if isAsciiWhitespace b then skipFrom false rest
    else if b = byte ';' then skipFrom true rest
    else b :: rest := rfl

/-- The bytes of a long character are skipped in a comment. -/
theorem skipFrom_wide {rest : List UInt8} : ∀ more : List UInt8, (∀ b ∈ more, 128 ≤ b.toNat) →
    skipFrom true (more ++ rest) = skipFrom true rest := by
  intro more
  induction more with
  | nil => exact fun _ => rfl
  | cons b more ih =>
      intro hwide
      have hb : b ≠ byte '\n' := byte_ne (hwide b List.mem_cons_self) (by decide)
      show skipFrom (decide (b ≠ byte '\n')) (more ++ rest) = _
      rw [decide_eq_true hb]
      exact ih fun x hx => hwide x (List.mem_cons_of_mem _ hx)

/-- Skipping blanks stops between two characters, at one that is no blank. -/
theorem skipFrom_text : ∀ (cs : List Char) (inComment : Bool),
    ∃ cs', skipFrom inComment (encode cs) = encode cs' ∧
      (encode cs').length ≤ (encode cs).length ∧
        ∀ c rest, cs' = c :: rest → isBlank c = false ∧ c ≠ ';' := by
  intro cs
  induction cs with
  | nil =>
      intro inComment
      refine ⟨[], ?_, Nat.le_refl _, fun c rest hcs => absurd hcs (by simp)⟩
      cases inComment <;> rfl
  | cons c cs ih =>
      intro inComment
      obtain ⟨b, rest, heq, hcase⟩ := encode_head c cs
      have hlen : (encode cs).length < (encode (c :: cs)).length := by
        rw [heq]
        rcases hcase with ⟨-, -, rfl⟩ | ⟨-, -, more, rfl, -⟩
        · simp
        · simp only [List.length_cons, List.length_append]
          omega
      have hskip : ∀ flag, skipFrom inComment (encode (c :: cs)) = skipFrom flag (encode cs) →
          ∃ cs', skipFrom inComment (encode (c :: cs)) = encode cs' ∧
            (encode cs').length ≤ (encode (c :: cs)).length ∧
              ∀ c rest, cs' = c :: rest → isBlank c = false ∧ c ≠ ';' := by
        intro flag hflag
        obtain ⟨cs', hcs', hle, hhead⟩ := ih flag
        exact ⟨cs', hflag.trans hcs', hle.trans hlen.le, hhead⟩
      cases inComment with
      | true =>
          rcases hcase with ⟨hc, rfl, rfl⟩ | ⟨hc, hb, more, rfl, hmore⟩
          · refine hskip (decide (byte c ≠ byte '\n')) ?_
            rw [heq]
            rfl
          · refine hskip true ?_
            rw [heq]
            exact skipFrom_wide (b :: more) fun x hx =>
              (List.mem_cons.1 hx).elim (fun h => h ▸ hb) (hmore x)
      | false =>
          by_cases hws : isAsciiWhitespace b = true
          · rcases hcase with ⟨hc, rfl, rfl⟩ | ⟨hc, hb, -⟩
            · refine hskip false ?_
              rw [heq]
              exact if_pos hws
            · rw [not_whitespace hb] at hws
              cases hws
          · by_cases hsemi : b = byte ';'
            · rcases hcase with ⟨hc, rfl, rfl⟩ | ⟨hc, hb, -⟩
              · refine hskip true ?_
                rw [heq, skipFrom_cons, if_neg hws, if_pos hsemi]
              · exact absurd hsemi (byte_ne hb (by decide))
            · -- the scan stops here
              refine ⟨c :: cs, ?_, Nat.le_refl _, ?_⟩
              · rw [heq, skipFrom_cons, if_neg hws, if_neg hsemi]
              · intro c' rest' hcons
                cases hcons
                constructor
                · unfold isBlank
                  rcases hcase with ⟨hc, rfl, -⟩ | ⟨hc, -⟩
                  · rw [Bool.and_eq_false_iff]
                    exact Or.inr (by simpa using hws)
                  · rw [decide_eq_false hc, Bool.false_and]
                · rintro rfl
                  rcases hcase with ⟨-, rfl, -⟩ | ⟨hc, -⟩
                  · exact hsemi rfl
                  · exact hc (by decide)

theorem readAtomBytes_eq (rest : List UInt8) : readAtomBytes rest =
    (rest.takeWhile fun b => !isDelimiter b, rest.dropWhile fun b => !isDelimiter b) :=
  List.span_eq_takeWhile_dropWhile _ _

/-- The bytes before the first delimiter are those of whole characters. -/
theorem readAtomBytes_text : ∀ cs : List Char, ∃ atom cs',
    readAtomBytes (encode cs) = (encode atom, encode cs') ∧ cs = atom ++ cs' ∧
      (∀ c ∈ atom, endsAtom c = false) ∧ ∀ c rest, cs' = c :: rest → endsAtom c = true := by
  intro cs
  induction cs with
  | nil => exact ⟨[], [], rfl, rfl, fun _ hc => absurd hc List.not_mem_nil,
      fun _ _ hcs => absurd hcs (by simp)⟩
  | cons c cs ih =>
      cases hends : endsAtom c with
      | true =>
          refine ⟨[], c :: cs, ?_, rfl, fun _ hc => absurd hc List.not_mem_nil, ?_⟩
          · unfold endsAtom at hends
            rw [Bool.and_eq_true, decide_eq_true_eq] at hends
            rw [encode_cons, encode_ascii hends.1, readAtomBytes_eq]
            simp [hends.2]
          · intro c' rest' hcons
            cases hcons
            exact hends
      | false =>
          obtain ⟨atom, cs', heq, rfl, hatom, hnext⟩ := ih
          refine ⟨c :: atom, cs', ?_, rfl, ?_, hnext⟩
          · -- no byte of `c` is a delimiter
            have hfree : ∀ b ∈ String.utf8EncodeChar c, (!isDelimiter b) = true := by
              intro b hb
              by_cases hc : IsAscii c
              · rw [encode_ascii hc, List.mem_singleton] at hb
                subst hb
                unfold endsAtom at hends
                rw [decide_eq_true hc, Bool.true_and] at hends
                rw [hends]
                rfl
              · rw [not_delimiter (wide_bytes hc b hb)]
                rfl
            rw [readAtomBytes_eq, Prod.mk.injEq] at heq
            rw [encode_cons, encode_cons, readAtomBytes_eq, List.takeWhile_append_of_pos hfree,
              List.dropWhile_append_of_pos hfree, heq.1, heq.2]
          · intro x hx
            rcases List.mem_cons.1 hx with rfl | hx
            · exact hends
            · exact hatom x hx

/-! ## What can be written -/

/-- Characters an integer starts with. -/
def startsNumber (c : Char) : Bool := c = '-' || c.isDigit

end Reader

open Reader

/-- A name that reads back as a symbol. -/
def SymbolText (name : String) : Prop :=
  ∃ c cs, name.toList = c :: cs ∧ (∀ x ∈ name.toList, endsAtom x = false) ∧
    c ≠ '"' ∧ c ≠ '\'' ∧ c ≠ '#' ∧ name ≠ "nil" ∧ (startsNumber c = true → parseI64 name = none)

theorem symbolText_of_letters {name : String} {c : Char} {cs : List Char}
    (hname : name.toList = c :: cs) (hall : (name.toList.all fun x => !endsAtom x) = true)
    (hfirst : c ≠ '"' ∧ c ≠ '\'' ∧ c ≠ '#') (hnil : name ≠ "nil")
    (hnumber : startsNumber c = false) : SymbolText name := by
  refine ⟨c, cs, hname, fun x hx => ?_, hfirst.1, hfirst.2.1, hfirst.2.2, hnil, fun h => ?_⟩
  · have hx' := List.all_eq_true.1 hall x hx
    rwa [Bool.not_eq_true'] at hx'
  · rw [hnumber] at h
    cases h

/-- The expressions that can be written. -/
inductive Sexp.Writable : Sexp → Prop
  | number (n : Int64) : Writable (.number n)
  | bool (b : Bool) : Writable (.bool b)
  | nil : Writable .nil
  | string (s : String) : Writable (.string s)
  | symbol {name : String} (hname : SymbolText name) : Writable (.symbol name)
  | list {items : List Sexp} (hne : items ≠ []) (hitems : ∀ item ∈ items, Writable item) :
      Writable (.list items)

/-- The messages a source text can lead to. -/
inductive Reported : ReadError → Prop
  | eof : Reported (.text "unexpected EOF")
  | close (at' : String) : Reported (.text ("unexpected `)` at offset " ++ at'))
  | list : Reported (.text "unterminated list")
  | string : Reported (.text "unterminated string")
  | escape : Reported (.text "unterminated string escape")
  | hash : Reported (.text "unterminated # syntax")
  | hashSyntax (c : Char) : Reported (.text ("unknown # syntax: #" ++ String.singleton c))

/-! ## What is read -/

/-- What is left are whole characters, and fewer than `n` bytes. -/
def Remains (n : Nat) (rest : List UInt8) : Prop := (∃ cs, rest = encode cs) ∧ rest.length < n

theorem Sexp.Writable.quote {inner : Sexp} (hinner : inner.Writable) :
    Sexp.Writable (.list [.symbol "quote", inner]) := by
  have hname : SymbolText "quote" :=
    @symbolText_of_letters "quote" 'q' ['u', 'o', 't', 'e'] rfl (by decide) (by decide) (by decide)
      (by decide)
  refine .list (by simp) fun item hitem => ?_
  rcases List.mem_cons.1 hitem with rfl | hitem
  · exact .symbol hname
  · exact List.mem_singleton.1 hitem ▸ hinner

namespace Reader

open Library

/-! ### Strings -/

theorem byte_inj {c d : Char} (hc : IsAscii c) (hd : IsAscii d) (heq : byte c = byte d) : c = d := by
  have hcle : c.val.toNat ≤ 127 := hc
  have hdle : d.val.toNat ≤ 127 := hd
  have hnat : (byte c).toNat = (byte d).toNat := congrArg UInt8.toNat heq
  have hc' : (byte c).toNat = c.val.toNat % 256 := rfl
  have hd' : (byte d).toNat = d.val.toNat % 256 := rfl
  apply Char.ext
  apply UInt32.toNat_inj.1
  omega

theorem readString_quote (buf rest : List UInt8) : readString buf (byte '"' :: rest) = (do
    let text ← fromUtf8 buf
    return (.string text, rest)) := by
  rw [readString.eq_def]
  rfl

theorem readString_escape (buf : List UInt8) (b : UInt8) (rest : List UInt8) :
    readString buf (byte '\\' :: b :: rest) = readString (buf ++ [unescape b]) rest := by
  rw [readString.eq_def]
  rfl

theorem readString_plain {b : UInt8} (buf rest : List UInt8) (hquote : b ≠ byte '"')
    (hescape : b ≠ byte '\\') : readString buf (b :: rest) = readString (buf ++ [b]) rest := by
  rw [readString.eq_def]
  simp only [if_neg hquote, if_neg hescape]

theorem readString_wide {rest : List UInt8} : ∀ (more buf : List UInt8),
    (∀ b ∈ more, 128 ≤ b.toNat) → readString buf (more ++ rest) = readString (buf ++ more) rest := by
  intro more
  induction more with
  | nil =>
      intro buf _
      rw [List.append_nil]
      rfl
  | cons b more ih =>
      intro buf hwide
      have hb := hwide b List.mem_cons_self
      rw [List.cons_append, readString_plain _ _ (byte_ne hb (by decide)) (byte_ne hb (by decide)),
        ih _ fun x hx => hwide x (List.mem_cons_of_mem _ hx), List.append_assoc]
      rfl

/-- A plain character of a literal. -/
theorem readString_char {c : Char} (acc : List Char) (k : List UInt8) (hquote : c ≠ '"')
    (hescape : c ≠ '\\') : readString (encode acc) (String.utf8EncodeChar c ++ k) =
      readString (encode (acc ++ [c])) k := by
  rw [encode_append, encode_cons, encode_nil, List.append_nil]
  by_cases hc : IsAscii c
  · rw [encode_ascii hc]
    exact readString_plain _ _ (fun heq => hquote (byte_inj hc (by decide) heq))
      fun heq => hescape (byte_inj hc (by decide) heq)
  · exact readString_wide _ _ (wide_bytes hc)

/-- What an escaped character stands for. -/
def unescapeChar (c : Char) : Char := if c = 'n' then '\n' else if c = 't' then '\t' else c

theorem unescape_byte {c : Char} (hc : IsAscii c) :
    IsAscii (unescapeChar c) ∧ unescape (byte c) = byte (unescapeChar c) := by
  unfold unescapeChar unescape
  by_cases hn : c = 'n'
  · subst hn
    exact ⟨by decide, rfl⟩
  · have hn' : byte c ≠ byte 'n' := fun heq => hn (byte_inj hc (by decide) heq)
    rw [if_neg hn, if_neg hn']
    by_cases ht : c = 't'
    · subst ht
      exact ⟨by decide, rfl⟩
    · have ht' : byte c ≠ byte 't' := fun heq => ht (byte_inj hc (by decide) heq)
      rw [if_neg ht, if_neg ht']
      exact ⟨hc, rfl⟩

/-- An escaped character of a literal. -/
theorem readString_escaped (c : Char) (acc : List Char) (k : List UInt8) :
    readString (encode acc) (byte '\\' :: (String.utf8EncodeChar c ++ k)) =
      readString (encode (acc ++ [unescapeChar c])) k := by
  rw [encode_append, encode_cons, encode_nil, List.append_nil]
  by_cases hc : IsAscii c
  · obtain ⟨hascii, heq⟩ := unescape_byte hc
    rw [encode_ascii hc, encode_ascii hascii, ← heq]
    exact readString_escape _ _ _
  · have hwide := wide_bytes hc
    have hplain : unescapeChar c = c := by
      unfold unescapeChar
      have hn : c ≠ 'n' := by
        rintro rfl
        exact hc (by decide)
      have ht : c ≠ 't' := by
        rintro rfl
        exact hc (by decide)
      rw [if_neg hn, if_neg ht]
    rw [hplain]
    cases hbytes : String.utf8EncodeChar c with
    | nil => exact absurd hbytes String.utf8EncodeChar_ne_nil
    | cons b more =>
        rw [hbytes] at hwide
        have hb := hwide b List.mem_cons_self
        have hb' : unescape b = b := by
          unfold unescape
          rw [if_neg (byte_ne hb (by decide)), if_neg (byte_ne hb (by decide))]
        rw [List.cons_append, readString_escape, hb',
          readString_wide _ _ fun x hx => hwide x (List.mem_cons_of_mem _ hx), List.append_assoc]
        rfl

/-- The loop of a string literal. -/
theorem readString_text : ∀ (n : Nat) (cs acc : List Char), cs.length ≤ n →
    Outcome Reported (readString (encode acc) (encode cs)) fun r =>
      r.1.Writable ∧ Remains (encode cs).length r.2 := by
  intro n
  induction n with
  | zero =>
      intro cs acc hn
      cases List.length_eq_zero_iff.1 (Nat.le_zero.1 hn)
      exact .string
  | succ n ih =>
      intro cs acc hn
      cases cs with
      | nil => exact .string
      | cons c cs =>
          have hlen : (encode cs).length < (encode (c :: cs)).length := by
            rw [encode_cons, List.length_append]
            have hpos := List.length_pos_of_ne_nil (String.utf8EncodeChar_ne_nil (c := c))
            omega
          have hle : cs.length ≤ n := Nat.le_of_succ_le_succ hn
          have hshorter : ∀ {r : Sexp × List UInt8} {m : Nat}, m ≤ (encode cs).length →
              (r.1.Writable ∧ Remains m r.2) →
                r.1.Writable ∧ Remains (encode (c :: cs)).length r.2 := by
            rintro r m hm ⟨hform, hrest, hlt⟩
            exact ⟨hform, hrest, by omega⟩
          by_cases hquote : c = '"'
          · -- the literal ends
            subst hquote
            show Outcome Reported (readString (encode acc) (byte '"' :: encode cs)) _
            rw [readString_quote, fromUtf8_encode]
            exact ⟨.string _, ⟨cs, rfl⟩, hlen⟩
          · by_cases hescape : c = '\\'
            · subst hescape
              cases cs with
              | nil => exact .escape
              | cons d cs =>
                  show Outcome Reported (readString (encode acc)
                    (byte '\\' :: (String.utf8EncodeChar d ++ encode cs))) _
                  rw [readString_escaped]
                  refine (ih cs _ (by simp at hle; omega)).mono fun r => hshorter ?_
                  rw [encode_cons, List.length_append]
                  exact Nat.le_add_left _ _
            · rw [encode_cons, readString_char _ _ hquote hescape]
              exact (ih cs _ hle).mono fun r => hshorter (Nat.le_refl _)

/-! ### Atoms -/

/-- The first character of an atom is read, and what is left is shorter. -/
theorem readAtomBytes_cons {c : Char} (cs : List Char) (hc : endsAtom c = false) :
    ∃ atom rest, readAtomBytes (encode (c :: cs)) = (encode (c :: atom), rest) ∧
      (∀ x ∈ c :: atom, endsAtom x = false) ∧ Remains (encode (c :: cs)).length rest := by
  obtain ⟨atom, cs', heq, hcs, hatom, hnext⟩ := readAtomBytes_text (c :: cs)
  cases atom with
  | nil =>
      rw [hnext c cs hcs.symm] at hc
      cases hc
  | cons x atom =>
      rw [List.cons_append, List.cons.injEq] at hcs
      obtain ⟨rfl, rfl⟩ := hcs
      refine ⟨atom, encode cs', heq, hatom, ⟨cs', rfl⟩, ?_⟩
      rw [encode_cons, encode_append, List.length_append, List.length_append]
      have hpos := List.length_pos_of_ne_nil (String.utf8EncodeChar_ne_nil (c := c))
      omega

/-- A symbol or a number. -/
theorem readNumberOrSymbol_text {c : Char} (cs : List Char) (hc : endsAtom c = false)
    (hstart : startsNumber c = true) :
    Outcome Reported (readNumberOrSymbol (encode (c :: cs))) fun r =>
      r.1.Writable ∧ Remains (encode (c :: cs)).length r.2 := by
  obtain ⟨atom, rest, heq, hatom, hrest⟩ := readAtomBytes_cons cs hc
  have hne : ∀ d, startsNumber d = false → c ≠ d := by
    rintro d hd rfl
    rw [hd] at hstart
    cases hstart
  simp only [readNumberOrSymbol, heq, fromUtf8_encode, bind, Except.bind]
  cases hparse : parseI64 (String.ofList (c :: atom)) with
  | some n => exact ⟨.number n, hrest⟩
  | none =>
      refine ⟨.symbol ⟨c, atom, String.toList_ofList, ?_, hne _ (by decide), hne _ (by decide),
        hne _ (by decide), ?_, fun _ => hparse⟩, hrest⟩
      · rw [String.toList_ofList]
        exact hatom
      · intro hnil
        have hlist := congrArg String.toList hnil
        rw [String.toList_ofList] at hlist
        exact hne 'n' (by decide) (List.cons.inj hlist).1

/-- Any other atom is a symbol, or `nil`. -/
theorem readSymbol_text (len : Nat) {c : Char} (cs : List Char) (hc : endsAtom c = false)
    (hquotes : c ≠ '"' ∧ c ≠ '\'' ∧ c ≠ '#') (hstart : startsNumber c = false) :
    Outcome Reported (readSymbol len (encode (c :: cs))) fun r =>
      r.1.Writable ∧ Remains (encode (c :: cs)).length r.2 := by
  obtain ⟨atom, rest, heq, hatom, hrest⟩ := readAtomBytes_cons cs hc
  have hsome : (encode (c :: atom)).isEmpty = false := by
    rw [List.isEmpty_eq_false_iff, encode_cons]
    exact List.append_ne_nil_of_left_ne_nil String.utf8EncodeChar_ne_nil _
  unfold readSymbol
  rw [heq]
  show Outcome Reported (if (encode (c :: atom)).isEmpty = true then _ else _) _
  rw [hsome, if_neg (by decide), fromUtf8_encode]
  show Outcome Reported (.ok (if String.ofList (c :: atom) = "nil" then Sexp.nil
    else .symbol (String.ofList (c :: atom)), rest)) _
  refine ⟨?_, hrest⟩
  by_cases hnil : String.ofList (c :: atom) = "nil"
  · rw [if_pos hnil]
    exact .nil
  · rw [if_neg hnil]
    refine .symbol ⟨c, atom, String.toList_ofList, ?_, hquotes.1, hquotes.2.1, hquotes.2.2, hnil, ?_⟩
    · rw [String.toList_ofList]
      exact hatom
    · rw [hstart]
      exact fun h => absurd h (by decide)

theorem readHash_cons (b : UInt8) (rest : List UInt8) : readHash (b :: rest) =
    if b = byte 't' then .ok (.bool true, rest)
    else if b = byte 'f' then .ok (.bool false, rest)
    else .error (.text ("unknown # syntax: #" ++ String.singleton (Char.ofNat b.toNat))) := rfl

/-- `#t` and `#f`. -/
theorem readHash_text (cs : List Char) :
    Outcome Reported (readHash (encode cs)) fun r =>
      r.1.Writable ∧ Remains (encode cs).length r.2 := by
  cases cs with
  | nil => exact .hash
  | cons c cs =>
      obtain ⟨b, rest, heq, hcase⟩ := encode_head c cs
      rw [heq, readHash_cons]
      have hrest : b < 128 → Remains (b :: rest).length rest := by
        intro hb
        rcases hcase with ⟨-, -, rfl⟩ | ⟨-, hwide, -⟩
        · exact ⟨⟨cs, rfl⟩, Nat.lt_succ_self _⟩
        · rw [UInt8.lt_iff_toNat_lt] at hb
          exact absurd hwide (Nat.not_le.2 hb)
      by_cases ht : b = byte 't'
      · rw [if_pos ht]
        exact ⟨.bool true, hrest (by rw [ht]; decide)⟩
      · rw [if_neg ht]
        by_cases hf : b = byte 'f'
        · rw [if_pos hf]
          exact ⟨.bool false, hrest (by rw [hf]; decide)⟩
        · rw [if_neg hf]
          exact .hashSyntax _

/-! ### Expressions -/

theorem readExpr_cons {len fuel : Nat} {text rest : List UInt8} {b : UInt8}
    (hskip : skipWsAndComments text = b :: rest) : readExpr len (fuel + 1) text =
      if b = byte '(' then readList len fuel [] rest
      else if b = byte ')' then
        .error (.text ("unexpected `)` at offset " ++ offset len (b :: rest)))
      else if b = byte '"' then readString [] rest
      else if b = byte '\'' then
        readExpr len fuel rest >>= fun r => .ok (.list [.symbol "quote", r.1], r.2)
      else if b = byte '#' then readHash rest
      else if b = byte '-' || isAsciiDigit b then readNumberOrSymbol (b :: rest)
      else readSymbol len (b :: rest) := by
  rw [readExpr, hskip]
  rfl

theorem readList_cons {len fuel : Nat} {items : List Sexp} {text rest : List UInt8} {b : UInt8}
    (hskip : skipWsAndComments text = b :: rest) : readList len (fuel + 1) items text =
      if b = byte ')' then .ok (if items.isEmpty then .nil else .list items, rest)
      else readExpr len fuel (b :: rest) >>= fun r =>
        readList len fuel (items ++ [r.1]) r.2 := by
  rw [readList, hskip]
  rfl

theorem readForms_cons {len fuel : Nat} {out : List Sexp} {text rest : List UInt8} {b : UInt8}
    (hskip : skipWsAndComments text = b :: rest) : readForms len (fuel + 1) out text =
      readExpr len fuel (b :: rest) >>= fun r => readForms len fuel (out ++ [r.1]) r.2 := by
  rw [readForms, readOne, hskip]
  cases hr : readExpr len fuel (b :: rest) with
  | error e => simp only [hr]; rfl
  | ok r => simp only [hr]; rfl

theorem readForms_nil {len fuel : Nat} {out : List Sexp} {text : List UInt8}
    (hskip : skipWsAndComments text = []) : readForms len (fuel + 1) out text = .ok out := by
  rw [readForms, readOne, hskip]
  rfl

theorem byte_digit {c : Char} (hc : IsAscii c) : isAsciiDigit (byte c) = c.isDigit := by
  have hle : c.val.toNat ≤ 127 := hc
  have hbyte : (byte c).toNat = c.val.toNat % 256 := rfl
  unfold isAsciiDigit Char.isDigit
  rw [Bool.eq_iff_iff, Bool.and_eq_true, Bool.and_eq_true, decide_eq_true_eq, decide_eq_true_eq,
    decide_eq_true_eq, decide_eq_true_eq, UInt8.le_iff_toNat_le, UInt8.le_iff_toNat_le,
    ge_iff_le, UInt32.le_iff_toNat_le, UInt32.le_iff_toNat_le, hbyte,
    Nat.mod_eq_of_lt (Nat.lt_of_le_of_lt hle (by decide))]
  exact Iff.rfl

theorem digit_ascii {c : Char} (hc : c.isDigit = true) : IsAscii c := by
  unfold Char.isDigit at hc
  rw [Bool.and_eq_true, decide_eq_true_eq, decide_eq_true_eq, UInt32.le_iff_toNat_le] at hc
  exact hc.2.trans (by decide)

/-- An atom ends at a blank, a parenthesis or a comment. -/
theorem endsAtom_iff (c : Char) :
    endsAtom c = true ↔ isBlank c = true ∨ c = '(' ∨ c = ')' ∨ c = ';' := by
  unfold endsAtom isBlank isDelimiter
  by_cases hc : IsAscii c
  · have htest : ∀ d, IsAscii d → (byte c = byte d ↔ c = d) := fun d hd =>
      ⟨byte_inj hc hd, fun h => congrArg byte h⟩
    rw [decide_eq_true hc, Bool.true_and, Bool.true_and, Bool.or_eq_true, Bool.or_eq_true,
      Bool.or_eq_true, decide_eq_true_eq, decide_eq_true_eq, decide_eq_true_eq,
      htest _ (by decide), htest _ (by decide), htest _ (by decide), or_assoc, or_assoc]
  · rw [decide_eq_false hc, Bool.false_and, Bool.false_and]
    constructor
    · exact fun h => absurd h (by decide)
    · rintro (h | rfl | rfl | rfl)
      · exact absurd h (by decide)
      all_goals exact absurd (by decide) hc

/-- The character at which the reader decides. -/
structure AtChar (text : List UInt8) (c : Char) (cs : List Char) (b : UInt8) (rest : List UInt8) :
    Prop where
  skip : skipWsAndComments text = b :: rest
  bytes : encode (c :: cs) = b :: rest
  shorter : (b :: rest).length ≤ text.length
  visible : isBlank c = false
  noComment : c ≠ ';'
  ascii : ∀ d, IsAscii d → (b = byte d ↔ c = d)
  tail : IsAscii c → rest = encode cs
  less : (encode cs).length < (encode (c :: cs)).length
  digit : isAsciiDigit b = c.isDigit

theorem atChar_of_skip {text rest : List UInt8} {b : UInt8} {c : Char} {cs : List Char}
    (hskip : skipWsAndComments text = encode (c :: cs))
    (hle : (encode (c :: cs)).length ≤ text.length) (heq : encode (c :: cs) = b :: rest)
    (hcase : (IsAscii c ∧ b = byte c ∧ rest = encode cs) ∨
      (¬ IsAscii c ∧ 128 ≤ b.toNat ∧ ∃ more : List UInt8, rest = more ++ encode cs ∧
        ∀ b ∈ more, 128 ≤ b.toNat))
    (hblank : isBlank c = false) (hsemi : c ≠ ';') : AtChar text c cs b rest where
  skip := hskip.trans heq
  bytes := heq
  shorter := heq ▸ hle
  visible := hblank
  noComment := hsemi
  ascii := by
    intro d hd
    rcases hcase with ⟨hc, rfl, -⟩ | ⟨hc, hwide, -⟩
    · exact ⟨byte_inj hc hd, fun h => congrArg byte h⟩
    · exact ⟨fun h => absurd h (byte_ne hwide hd), fun h => absurd (h ▸ hd) hc⟩
  tail := by
    intro hc
    rcases hcase with ⟨-, -, hrest⟩ | ⟨hwide, -⟩
    · exact hrest
    · exact absurd hc hwide
  less := by
    rw [encode_cons, List.length_append]
    have hpos := List.length_pos_of_ne_nil (String.utf8EncodeChar_ne_nil (c := c))
    omega
  digit := by
    rcases hcase with ⟨hc, rfl, -⟩ | ⟨hc, hwide, -⟩
    · exact byte_digit hc
    · rw [not_digit hwide]
      symm
      rw [← Bool.not_eq_true]
      exact fun hdigit => hc (digit_ascii hdigit)

/-- On a text the reader decides at a character, or at the end. -/
theorem skip_text (cs : List Char) : skipWsAndComments (encode cs) = [] ∨
    ∃ c cs' b rest, AtChar (encode cs) c cs' b rest := by
  obtain ⟨cs', hskip, hle, hhead⟩ := skipFrom_text cs false
  cases cs' with
  | nil => exact Or.inl hskip
  | cons c cs' =>
      obtain ⟨hblank, hsemi⟩ := hhead c cs' rfl
      obtain ⟨b, rest, heq, hcase⟩ := encode_head c cs'
      exact Or.inr ⟨c, cs', b, rest, atChar_of_skip hskip hle heq hcase hblank hsemi⟩

/-- With two steps a byte the reader does not run dry: it makes a form that can be written, or
reports. -/
theorem read_text (len : Nat) : ∀ fuel,
    (∀ cs, 2 * (encode cs).length + 1 ≤ fuel →
      Outcome Reported (readExpr len fuel (encode cs)) fun r =>
        r.1.Writable ∧ Remains (encode cs).length r.2) ∧
    ∀ cs items, (∀ item ∈ items, Sexp.Writable item) → 2 * (encode cs).length + 2 ≤ fuel →
      Outcome Reported (readList len fuel items (encode cs)) fun r =>
        r.1.Writable ∧ Remains (encode cs).length r.2 := by
  intro fuel
  induction fuel with
  | zero => exact ⟨fun cs h => absurd h (by omega), fun cs items _ h => absurd h (by omega)⟩
  | succ fuel ih =>
      obtain ⟨hexpr, hlist⟩ := ih
      constructor
      · intro cs hfuel
        rcases skip_text cs with hnil | ⟨c, cs', b, rest, hat⟩
        · rw [readExpr, hnil]
          exact .eof
        · rw [readExpr_cons hat.skip]
          have hlen := hat.less
          have hle := hat.shorter
          rw [← hat.bytes] at hle
          have hshorter : ∀ {r : Sexp × List UInt8} {m : Nat}, m ≤ (encode (c :: cs')).length →
              (r.1.Writable ∧ Remains m r.2) → r.1.Writable ∧ Remains (encode cs).length r.2 := by
            rintro r m hm ⟨hform, hrest, hlt⟩
            exact ⟨hform, hrest, by omega⟩
          have htail : ∀ d, IsAscii d → b = byte d → rest = encode cs' := by
            intro d hd hbyte
            rw [(hat.ascii d hd).1 hbyte] at hat
            exact hat.tail hd
          by_cases hopen : b = byte '('
          · rw [if_pos hopen, htail _ (by decide) hopen]
            exact (hlist cs' [] (fun _ h => absurd h List.not_mem_nil) (by omega)).mono
              fun r => hshorter hlen.le
          rw [if_neg hopen]
          by_cases hclose : b = byte ')'
          · rw [if_pos hclose]
            exact .close _
          rw [if_neg hclose]
          by_cases hstring : b = byte '"'
          · rw [if_pos hstring, htail _ (by decide) hstring]
            exact (readString_text _ cs' [] (Nat.le_refl _)).mono fun r => hshorter hlen.le
          rw [if_neg hstring]
          by_cases hquote : b = byte '\''
          · rw [if_pos hquote, htail _ (by decide) hquote]
            refine (hexpr cs' (by omega)).bind fun r hr => ?_
            obtain ⟨hform, hrest, hlt⟩ := hr
            refine ⟨hform.quote, hrest, ?_⟩
            show r.2.length < _
            omega
          rw [if_neg hquote]
          by_cases hhash : b = byte '#'
          · rw [if_pos hhash, htail _ (by decide) hhash]
            exact (readHash_text cs').mono fun r => hshorter hlen.le
          rw [if_neg hhash]
          -- what is left is an atom
          have hne : ∀ d, IsAscii d → b ≠ byte d → c ≠ d := fun d hd hbyte heq =>
            hbyte ((hat.ascii d hd).2 heq)
          have hends : endsAtom c = false := by
            rw [← Bool.not_eq_true, endsAtom_iff]
            rintro (h | h | h | h)
            · rw [hat.visible] at h
              cases h
            · exact hne _ (by decide) hopen h
            · exact hne _ (by decide) hclose h
            · exact hat.noComment h
          have hstart : (decide (b = byte '-') || isAsciiDigit b) = startsNumber c := by
            unfold startsNumber
            rw [hat.digit, decide_eq_decide.2 (hat.ascii '-' (by decide))]
          rw [hstart, ← hat.bytes]
          cases hnumber : startsNumber c with
          | true =>
              rw [if_pos rfl]
              exact (readNumberOrSymbol_text cs' hends hnumber).mono
                fun r => hshorter (Nat.le_refl _)
          | false =>
              rw [if_neg (by decide)]
              exact (readSymbol_text len cs' hends ⟨hne _ (by decide) hstring,
                hne _ (by decide) hquote, hne _ (by decide) hhash⟩ hnumber).mono
                  fun r => hshorter (Nat.le_refl _)
      · intro cs items hitems hfuel
        rcases skip_text cs with hnil | ⟨c, cs', b, rest, hat⟩
        · rw [readList, hnil]
          exact .list
        · rw [readList_cons hat.skip]
          have hlen := hat.less
          have hle := hat.shorter
          rw [← hat.bytes] at hle
          by_cases hclose : b = byte ')'
          · rw [if_pos hclose]
            have hc := (hat.ascii _ (by decide)).1 hclose
            have hrest := hat.tail (hc ▸ by decide)
            refine ⟨?_, ⟨cs', hrest⟩, ?_⟩
            · cases items with
              | nil => exact .nil
              | cons item items => exact .list (by simp) hitems
            · show rest.length < _
              rw [hrest]
              omega
          · rw [if_neg hclose, ← hat.bytes]
            refine (hexpr (c :: cs') (by omega)).bind fun r hr => ?_
            obtain ⟨hform, ⟨cs'', hcs''⟩, hlt⟩ := hr
            rw [hcs''] at hlt ⊢
            refine (hlist cs'' _ ?_ (by omega)).mono fun r' hr' => ?_
            · intro item hitem
              rcases List.mem_append.1 hitem with hitem | hitem
              · exact hitems item hitem
              · rw [List.mem_singleton.1 hitem]
                exact hform
            · obtain ⟨hform', hrest', hlt'⟩ := hr'
              exact ⟨hform', hrest', by omega⟩

/-- The loop over a whole text. -/
theorem readForms_text (len : Nat) : ∀ fuel cs out, (∀ form ∈ out, Sexp.Writable form) →
    2 * (encode cs).length + 2 ≤ fuel →
      Outcome Reported (readForms len fuel out (encode cs)) fun forms =>
        ∀ form ∈ forms, form.Writable := by
  intro fuel
  induction fuel with
  | zero => exact fun cs out _ h => absurd h (by omega)
  | succ fuel ih =>
      intro cs out hout hfuel
      rcases skip_text cs with hnil | ⟨c, cs', b, rest, hat⟩
      · rw [readForms_nil hnil]
        exact hout
      · have hle := hat.shorter
        rw [← hat.bytes] at hle
        rw [readForms_cons hat.skip, ← hat.bytes]
        refine ((read_text len fuel).1 (c :: cs') (by omega)).bind fun r hr => ?_
        obtain ⟨hform, ⟨cs'', hcs''⟩, hlt⟩ := hr
        rw [hcs''] at hlt ⊢
        refine ih cs'' _ ?_ (by omega)
        intro form hmem
        rcases List.mem_append.1 hmem with hmem | hmem
        · exact hout form hmem
        · rw [List.mem_singleton.1 hmem]
          exact hform

end Reader

/-! ## Writing -/

/-- Blanks: whitespace and closed comments. -/
inductive Blank : List Char → Prop
  | space {c : Char} (hc : isBlank c = true) : Blank [c]
  | comment {body : List Char} (hbody : '\n' ∉ body) : Blank (';' :: (body ++ ['\n']))
  | append {cs ds : List Char} (hcs : Blank cs) (hds : Blank ds) : Blank (cs ++ ds)

/-- The characters of a literal between its quotes. -/
def escapeText (cs : List Char) : List Char :=
  cs.flatMap fun c => if c = '"' ∨ c = '\\' then ['\\', c] else [c]

mutual

/-- The text of an expression.  `gap` gives the text behind every item of a list but the last, by
the positions that lead to the item. -/
def Sexp.write (gap : List Nat → List Char) : Sexp → List Char
  | .number n => (toString n.toInt).toList
  | .bool b => ['#', if b then 't' else 'f']
  | .nil => ['(', ')']
  | .string s => '"' :: (escapeText s.toList ++ ['"'])
  | .symbol name => name.toList
  | .list items => '(' :: (Sexp.writeAll gap 0 items ++ [')'])

/-- The items of a list from position `i`. -/
def Sexp.writeAll (gap : List Nat → List Char) (i : Nat) : List Sexp → List Char
  | [] => []
  | [item] => Sexp.write (fun path => gap (i :: path)) item
  | item :: items =>
      Sexp.write (fun path => gap (i :: path)) item ++ (gap [i] ++ Sexp.writeAll gap (i + 1) items)

end

/-- The text of a program, a text of its own in every gap. -/
def writeText (gap : List Nat → String) (forms : List Sexp) : String :=
  String.ofList (Sexp.writeAll (fun path => (gap path).toList) 0 forms)

namespace Reader

/-! ### Integers -/

theorem isBlank_iff (c : Char) : isBlank c = true ↔
    c = ' ' ∨ c = '\t' ∨ c = '\n' ∨ c = '\x0c' ∨ c = '\r' := by
  unfold isBlank isAsciiWhitespace
  by_cases hc : IsAscii c
  · have htest : ∀ d, IsAscii d → (byte c = byte d ↔ c = d) := fun d hd =>
      ⟨byte_inj hc hd, fun h => congrArg byte h⟩
    rw [decide_eq_true hc, Bool.true_and]
    simp (disch := decide) only [Bool.or_eq_true, decide_eq_true_eq, htest, or_assoc]
  · rw [decide_eq_false hc, Bool.false_and]
    constructor
    · exact fun h => absurd h (by decide)
    · rintro (rfl | rfl | rfl | rfl | rfl)
      all_goals exact absurd (by decide) hc

theorem digit_inside {c : Char} (hc : c.isDigit = true) : endsAtom c = false := by
  rw [← Bool.not_eq_true, endsAtom_iff, isBlank_iff]
  rintro ((rfl | rfl | rfl | rfl | rfl) | rfl | rfl | rfl)
  all_goals exact absurd hc (by decide)

theorem parseDigits_eq : ∀ (cs : List Char) (n : Nat), (∀ c ∈ cs, c.isDigit = true) →
    parseDigits n cs = some (Nat.ofDigitChars 10 cs n) := by
  intro cs
  induction cs with
  | nil => exact fun _ _ => rfl
  | cons c cs ih =>
      intro n hdigits
      unfold parseDigits
      rw [if_pos (hdigits c List.mem_cons_self), Nat.ofDigitChars_cons]
      exact ih _ fun x hx => hdigits x (List.mem_cons_of_mem _ hx)

theorem mem_digits {n : Nat} {c : Char} (hc : c ∈ Nat.toDigits 10 n) : c.isDigit = true :=
  Nat.isDigit_of_mem_toDigits (by decide) (by decide) hc

theorem parseNat_digits (n : Nat) : parseNat (Nat.toDigits 10 n) = some n := by
  unfold parseNat
  rw [if_neg (by simp [Nat.toDigits_ne_nil]), parseDigits_eq _ _ fun c hc => mem_digits hc,
    Nat.ofDigitChars_ten_toDigits]

/-- The text of an integer. -/
theorem integer_text (n : Int64) : ∃ c cs, (toString n.toInt).toList = c :: cs ∧
    startsNumber c = true ∧ (∀ x ∈ c :: cs, endsAtom x = false) ∧
      parseI64 (String.ofList (c :: cs)) = some n := by
  have hlo := n.le_toInt
  have hhi := n.toInt_lt
  rw [Int.toString_eq_repr, Int.repr_eq_if]
  by_cases hsign : 0 ≤ n.toInt
  · rw [if_pos hsign, Nat.toList_repr]
    cases hcs : Nat.toDigits 10 n.toInt.toNat with
    | nil => exact absurd hcs Nat.toDigits_ne_nil
    | cons c cs =>
        have hdigits : ∀ x ∈ c :: cs, x.isDigit = true := fun x hx => mem_digits (hcs ▸ hx)
        have hc := hdigits c List.mem_cons_self
        refine ⟨c, cs, rfl, ?_, fun x hx => digit_inside (hdigits x hx), ?_⟩
        · unfold startsNumber
          rw [hc, Bool.or_true]
        · have hparse := parseNat_digits n.toInt.toNat
          rw [hcs] at hparse
          have hvalue : (if n.toInt.toNat < 2 ^ 63 then some (Int64.ofInt n.toInt.toNat) else none) =
              some n := by
            rw [if_pos (by omega), Int.toNat_of_nonneg hsign, Int64.ofInt_toInt]
          unfold parseI64
          rw [String.toList_ofList]
          split
          · rename_i heq
            cases heq
            exact absurd hc (by decide)
          · rename_i heq
            cases heq
            exact absurd hc (by decide)
          · rw [hparse]
            exact hvalue
  · rw [if_neg hsign, String.toList_append, Nat.toList_repr]
    refine ⟨'-', Nat.toDigits 10 (-n.toInt).toNat, rfl, by decide, ?_, ?_⟩
    · intro x hx
      rcases List.mem_cons.1 hx with rfl | hx
      · decide
      · exact digit_inside (mem_digits hx)
    · have hvalue : (if (-n.toInt).toNat ≤ 2 ^ 63 then
          some (Int64.ofInt (-((-n.toInt).toNat : Int))) else none) = some n := by
        rw [if_pos (by omega), Int.toNat_of_nonneg (by omega), Int.neg_neg, Int64.ofInt_toInt]
      unfold parseI64
      rw [String.toList_ofList]
      show (parseNat (Nat.toDigits 10 (-n.toInt).toNat)).bind _ = _
      rw [parseNat_digits]
      exact hvalue

/-! ### Scans over written text -/

/-- The text `ks` does not continue an atom. -/
def Ends (ks : List Char) : Prop := ∀ c cs, ks = c :: cs → endsAtom c = true

/-- An atom is read up to its end. -/
theorem readAtomBytes_write {ks : List Char} (hends : Ends ks) : ∀ atom : List Char,
    (∀ c ∈ atom, endsAtom c = false) →
      readAtomBytes (encode (atom ++ ks)) = (encode atom, encode ks) := by
  intro atom hatom
  obtain ⟨atom', ks', heq, hcs, hatom', hnext⟩ := readAtomBytes_text (atom ++ ks)
  rw [heq]
  -- both splits end at the first character that ends an atom
  have hsplit : atom = atom' ∧ ks = ks' := by
    clear heq
    induction atom generalizing atom' with
    | nil =>
        cases atom' with
        | nil => exact ⟨rfl, hcs⟩
        | cons c atom' =>
            have hc := hatom' c List.mem_cons_self
            rw [hends c _ hcs] at hc
            cases hc
    | cons c atom ih =>
        cases atom' with
        | nil =>
            have hc := hatom c List.mem_cons_self
            rw [hnext c _ hcs.symm] at hc
            cases hc
        | cons c' atom' =>
            rw [List.cons_append, List.cons_append, List.cons.injEq] at hcs
            obtain ⟨rfl, hrest⟩ := hcs
            obtain ⟨hatom'', hks⟩ := ih (fun x hx => hatom x (List.mem_cons_of_mem _ hx)) atom' hrest
              fun x hx => hatom' x (List.mem_cons_of_mem _ hx)
            exact ⟨by rw [hatom''], hks⟩
  rw [hsplit.1, hsplit.2]

theorem skipFrom_comment {k : List UInt8} : ∀ body : List Char, '\n' ∉ body →
    skipFrom true (encode body ++ byte '\n' :: k) = skipFrom false k := by
  intro body
  induction body with
  | nil => exact fun _ => rfl
  | cons c body ih =>
      intro hbody
      rw [List.mem_cons, not_or] at hbody
      rw [encode_cons, List.append_assoc]
      by_cases hc : IsAscii c
      · have hne : byte c ≠ byte '\n' := fun heq =>
          hbody.1 (byte_inj hc (by decide) heq).symm
        rw [encode_ascii hc]
        show skipFrom (decide (byte c ≠ byte '\n')) (encode body ++ byte '\n' :: k) = _
        rw [decide_eq_true hne]
        exact ih hbody.2
      · rw [skipFrom_wide _ (wide_bytes hc)]
        exact ih hbody.2

/-- Blanks are skipped. -/
theorem skipFrom_blank {cs : List Char} (hcs : Blank cs) (k : List UInt8) :
    skipFrom false (encode cs ++ k) = skipFrom false k := by
  induction hcs generalizing k with
  | @space c hc =>
      unfold isBlank at hc
      rw [Bool.and_eq_true, decide_eq_true_eq] at hc
      rw [encode_cons, encode_ascii hc.1]
      show skipFrom false (byte c :: k) = _
      rw [skipFrom_cons, if_pos hc.2]
  | @comment body hbody =>
      rw [encode_cons, encode_append, encode_ascii (by decide)]
      show skipFrom false (byte ';' :: (encode body ++ [byte '\n'] ++ k)) = _
      rw [skipFrom_cons, if_neg (by decide), if_pos rfl, List.append_assoc]
      exact skipFrom_comment body hbody
  | append _ _ ihcs ihds =>
      rw [encode_append, List.append_assoc, ihcs, ihds]

/-- Blanks end an atom. -/
theorem ends_blank {cs : List Char} (hcs : Blank cs) (ks : List Char) : Ends (cs ++ ks) := by
  induction hcs generalizing ks with
  | @space c hc =>
      rintro c rest heq
      cases heq
      exact (endsAtom_iff c).2 (Or.inl hc)
  | comment _ =>
      rintro c rest heq
      cases heq
      decide
  | append _ _ ihcs _ =>
      rw [List.append_assoc]
      exact ihcs _

theorem ends_close (ks : List Char) : Ends (')' :: ks) := by
  rintro c rest heq
  cases heq
  decide

/-- The reader decides at a visible character. -/
theorem atChar_visible {c : Char} (cs : List Char) (hblank : isBlank c = false) (hsemi : c ≠ ';') :
    ∃ b rest, AtChar (encode (c :: cs)) c cs b rest := by
  obtain ⟨b, rest, heq, hcase⟩ := encode_head c cs
  refine ⟨b, rest, atChar_of_skip ?_ (Nat.le_refl _) heq hcase hblank hsemi⟩
  have hstop : isAsciiWhitespace b = false ∧ b ≠ byte ';' := by
    rcases hcase with ⟨hc, rfl, -⟩ | ⟨-, hwide, -⟩
    · unfold isBlank at hblank
      rw [decide_eq_true hc, Bool.true_and] at hblank
      exact ⟨hblank, fun h => hsemi (byte_inj hc (by decide) h)⟩
    · exact ⟨not_whitespace hwide, byte_ne hwide (by decide)⟩
  unfold skipWsAndComments
  rw [heq, skipFrom_cons, hstop.1, if_neg (by decide), if_neg hstop.2]

/-! ### Reading written text -/

/-- The decision at a visible character. -/
theorem readExpr_visible {len fuel : Nat} {c : Char} (cs : List Char) (hblank : isBlank c = false)
    (hsemi : c ≠ ';') : readExpr len (fuel + 1) (encode (c :: cs)) =
      if c = '(' then readList len fuel [] (encode cs)
      else if c = ')' then
        .error (.text ("unexpected `)` at offset " ++ offset len (encode (c :: cs))))
      else if c = '"' then readString [] (encode cs)
      else if c = '\'' then
        readExpr len fuel (encode cs) >>= fun r => .ok (.list [.symbol "quote", r.1], r.2)
      else if c = '#' then readHash (encode cs)
      else if startsNumber c then readNumberOrSymbol (encode (c :: cs))
      else readSymbol len (encode (c :: cs)) := by
  obtain ⟨b, rest, hat⟩ := atChar_visible cs hblank hsemi
  have hstart : (decide (b = byte '-') || isAsciiDigit b) = startsNumber c := by
    unfold startsNumber
    rw [hat.digit, decide_eq_decide.2 (hat.ascii '-' (by decide))]
  have htail : ∀ d, IsAscii d → c = d → rest = encode cs := by
    rintro d hd rfl
    exact hat.tail hd
  rw [readExpr_cons hat.skip, hstart, ← hat.bytes]
  simp (disch := decide) only [hat.ascii]
  by_cases hopen : c = '('
  · rw [if_pos hopen, if_pos hopen, htail _ (by decide) hopen]
  by_cases hclose : c = ')'
  · rw [if_neg hopen, if_neg hopen, if_pos hclose, if_pos hclose]
  by_cases hstring : c = '"'
  · rw [if_neg hopen, if_neg hopen, if_neg hclose, if_neg hclose, if_pos hstring, if_pos hstring,
      htail _ (by decide) hstring]
  by_cases hquote : c = '\''
  · rw [htail _ (by decide) hquote]
  by_cases hhash : c = '#'
  · rw [htail _ (by decide) hhash]
  rw [if_neg hopen, if_neg hclose, if_neg hstring, if_neg hquote, if_neg hhash, if_neg hopen,
    if_neg hclose, if_neg hstring, if_neg hquote, if_neg hhash]

/-- An escaped literal reads back. -/
theorem readString_write {ks : List Char} : ∀ cs acc : List Char,
    readString (encode acc) (encode (escapeText cs ++ '"' :: ks)) =
      .ok (.string (String.ofList (acc ++ cs)), encode ks) := by
  intro cs
  induction cs with
  | nil =>
      intro acc
      show readString (encode acc) (byte '"' :: encode ks) = _
      rw [readString_quote, fromUtf8_encode, List.append_nil]
      rfl
  | cons c cs ih =>
      intro acc
      have hcons : escapeText (c :: cs) =
          (if c = '"' ∨ c = '\\' then ['\\', c] else [c]) ++ escapeText cs := rfl
      have hnext : readString (encode (acc ++ [c])) (encode (escapeText cs ++ '"' :: ks)) =
          .ok (.string (String.ofList (acc ++ c :: cs)), encode ks) := by
        rw [ih, List.append_assoc]
        rfl
      rw [hcons, List.append_assoc]
      by_cases hescape : c = '"' ∨ c = '\\'
      · rw [if_pos hescape]
        show readString (encode acc) (byte '\\' :: (String.utf8EncodeChar c ++
          encode (escapeText cs ++ '"' :: ks))) = _
        have hplain : unescapeChar c = c := by
          rcases hescape with rfl | rfl <;> rfl
        rw [readString_escaped, hplain, hnext]
      · rw [if_neg hescape]
        rw [not_or] at hescape
        show readString (encode acc) (String.utf8EncodeChar c ++
          encode (escapeText cs ++ '"' :: ks)) = _
        rw [readString_char _ _ hescape.1 hescape.2, hnext]

/-- The first character of a written form. -/
theorem write_head (gap : List Nat → List Char) {form : Sexp} (hform : form.Writable) :
    ∃ c cs, Sexp.write gap form = c :: cs ∧ isBlank c = false ∧ c ≠ ';' ∧ c ≠ ')' := by
  have hatom : ∀ c, endsAtom c = false → isBlank c = false ∧ c ≠ ';' ∧ c ≠ ')' := by
    intro c hc
    rw [← Bool.not_eq_true, endsAtom_iff, not_or, not_or, not_or, Bool.not_eq_true] at hc
    exact ⟨hc.1, hc.2.2.2, hc.2.2.1⟩
  cases hform with
  | number n =>
      obtain ⟨c, cs, htext, -, hinside, -⟩ := integer_text n
      unfold Sexp.write
      exact ⟨c, cs, htext, hatom c (hinside c List.mem_cons_self)⟩
  | bool b =>
      unfold Sexp.write
      exact ⟨_, _, rfl, by decide, by decide, by decide⟩
  | nil =>
      unfold Sexp.write
      exact ⟨_, _, rfl, by decide, by decide, by decide⟩
  | string s =>
      unfold Sexp.write
      exact ⟨_, _, rfl, by decide, by decide, by decide⟩
  | symbol hname =>
      obtain ⟨c, cs, htext, hinside, -⟩ := hname
      unfold Sexp.write
      refine ⟨c, cs, htext, hatom c (hinside c ?_)⟩
      rw [htext]
      exact List.mem_cons_self
  | list =>
      unfold Sexp.write
      exact ⟨_, _, rfl, by decide, by decide, by decide⟩

/-- `form` reads back from its text, whatever blanks stand in its gaps. -/
def ReadsBack (form : Sexp) : Prop :=
  ∀ gap : List Nat → List Char, (∀ path, Blank (gap path)) → ∀ len fuel ks, Ends ks →
    2 * (encode (Sexp.write gap form)).length + 1 ≤ fuel →
      readExpr len fuel (encode (Sexp.write gap form ++ ks)) = .ok (form, encode ks)

/-- An atom reads back. -/
theorem readExpr_atom {len fuel : Nat} {c : Char} {cs ks : List Char}
    (hatom : ∀ x ∈ c :: cs, endsAtom x = false) (hquotes : c ≠ '"' ∧ c ≠ '\'' ∧ c ≠ '#')
    (hks : Ends ks) : readExpr len (fuel + 1) (encode (c :: cs ++ ks)) =
      if startsNumber c then
        match parseI64 (String.ofList (c :: cs)) with
        | some n => .ok (.number n, encode ks)
        | none => .ok (.symbol (String.ofList (c :: cs)), encode ks)
      else .ok (if String.ofList (c :: cs) = "nil" then .nil
        else .symbol (String.ofList (c :: cs)), encode ks) := by
  have hc := hatom c List.mem_cons_self
  rw [← Bool.not_eq_true, endsAtom_iff, not_or, not_or, not_or, Bool.not_eq_true] at hc
  have hread := readAtomBytes_write hks (c :: cs) hatom
  have hsome : (encode (c :: cs)).isEmpty = false := by
    rw [List.isEmpty_eq_false_iff, encode_cons]
    exact List.append_ne_nil_of_left_ne_nil String.utf8EncodeChar_ne_nil _
  rw [List.cons_append, readExpr_visible _ hc.1 hc.2.2.2, if_neg hc.2.1, if_neg hc.2.2.1,
    if_neg hquotes.1, if_neg hquotes.2.1, if_neg hquotes.2.2, ← List.cons_append]
  cases hstart : startsNumber c with
  | true =>
      rw [if_pos rfl, if_pos rfl]
      unfold readNumberOrSymbol
      rw [hread]
      show (fromUtf8 (encode (c :: cs)) >>= fun text => _) = _
      rw [fromUtf8_encode]
      show (match parseI64 (String.ofList (c :: cs)) with
        | some n => pure (Sexp.number n, encode ks)
        | none => pure (Sexp.symbol (String.ofList (c :: cs)), encode ks)) = _
      cases parseI64 (String.ofList (c :: cs)) <;> rfl
  | false =>
      rw [if_neg (by decide), if_neg (by decide)]
      unfold readSymbol
      rw [hread]
      show (if (encode (c :: cs)).isEmpty = true then _ else
        fromUtf8 (encode (c :: cs)) >>= fun text => _) = _
      rw [hsome, if_neg (by decide), fromUtf8_encode]
      rfl

section Lists

variable {gap : List Nat → List Char}

/-- An item of a list reads back, and the list goes on behind it. -/
theorem readList_item (hgap : ∀ path, Blank (gap path)) {item : Sexp} (hitem : item.Writable)
    (hread : ReadsBack item) {len fuel : Nat} {acc : List Sexp} {ks : List Char} (hks : Ends ks)
    (hfuel : 2 * (encode (Sexp.write gap item)).length + 1 ≤ fuel) :
    readList len (fuel + 1) acc (encode (Sexp.write gap item ++ ks)) =
      readList len fuel (acc ++ [item]) (encode ks) := by
  obtain ⟨c, cs, hhead, hvisible, hsemi, hclose⟩ := write_head gap hitem
  have hread' := hread gap hgap len fuel ks hks hfuel
  rw [hhead, List.cons_append] at hread' ⊢
  obtain ⟨b, rest, hat⟩ := atChar_visible (cs ++ ks) hvisible hsemi
  rw [readList_cons hat.skip, if_neg fun h => hclose ((hat.ascii _ (by decide)).1 h), ← hat.bytes,
    hread']
  rfl

/-- The end of a list. -/
theorem readList_close (len fuel : Nat) (items : List Sexp) (ks : List Char) :
    readList len (fuel + 1) items (encode (')' :: ks)) =
      .ok (if items.isEmpty then .nil else .list items, encode ks) := by
  have hskip : skipWsAndComments (encode (')' :: ks)) = byte ')' :: encode ks := rfl
  rw [readList_cons hskip, if_pos rfl]

/-- Blanks between items are skipped. -/
theorem readList_blank {blank : List Char} (hblank : Blank blank) (len : Nat) (items : List Sexp)
    (ks : List Char) : ∀ fuel,
    readList len fuel items (encode (blank ++ ks)) = readList len fuel items (encode ks) := by
  intro fuel
  cases fuel with
  | zero => rfl
  | succ fuel =>
      have hskip : skipWsAndComments (encode (blank ++ ks)) = skipWsAndComments (encode ks) := by
        rw [encode_append]
        exact skipFrom_blank hblank (encode ks)
      rw [readList, readList, hskip]

/-- The items of a list read back. -/
theorem readList_write (hgap : ∀ path, Blank (gap path)) (len : Nat) (ks : List Char) :
    ∀ (items acc : List Sexp) (i fuel : Nat),
      (∀ item ∈ items, item.Writable ∧ ReadsBack item) → acc ++ items ≠ [] →
        2 * (encode (Sexp.writeAll gap i items)).length + 2 ≤ fuel →
          readList len fuel acc (encode (Sexp.writeAll gap i items ++ ')' :: ks)) =
            .ok (.list (acc ++ items), encode ks) := by
  intro items
  induction items with
  | nil =>
      intro acc i fuel _ hne hfuel
      obtain ⟨fuel, rfl⟩ : ∃ n, fuel = n + 1 := ⟨fuel - 1, by omega⟩
      unfold Sexp.writeAll
      rw [List.nil_append, readList_close, List.append_nil]
      rw [List.append_nil] at hne
      rw [if_neg (by simpa using hne)]
  | cons item items ih =>
      intro acc i fuel hitems hne hfuel
      obtain ⟨hwritable, hread⟩ := hitems item List.mem_cons_self
      have hinner : ∀ path, Blank (gap (i :: path)) := fun path => hgap _
      obtain ⟨fuel, rfl⟩ : ∃ n, fuel = n + 1 := ⟨fuel - 1, by omega⟩
      have hrest := ih (acc ++ [item]) (i + 1) fuel
        (fun x hx => hitems x (List.mem_cons_of_mem _ hx)) (by simp)
      rw [List.append_assoc] at hrest
      cases items with
      | nil =>
          have hone : Sexp.writeAll gap i [item] =
              Sexp.write (fun path => gap (i :: path)) item := by
            rw [Sexp.writeAll]
          rw [hone] at hfuel ⊢
          rw [readList_item hinner hwritable hread (ends_close ks) (by omega)]
          refine hrest ?_
          rw [Sexp.writeAll, encode_nil, List.length_nil]
          obtain ⟨c, cs, hhead, -⟩ := write_head (fun path => gap (i :: path)) hwritable
          have hpos := List.length_pos_of_ne_nil (String.utf8EncodeChar_ne_nil (c := c))
          rw [hhead, encode_cons, List.length_append] at hfuel
          omega
      | cons item' items =>
          have hmore : Sexp.writeAll gap i (item :: item' :: items) =
              Sexp.write (fun path => gap (i :: path)) item ++
                (gap [i] ++ Sexp.writeAll gap (i + 1) (item' :: items)) := by
            rw [Sexp.writeAll]
            simp
          rw [hmore] at hfuel ⊢
          rw [encode_append, encode_append, List.length_append, List.length_append] at hfuel
          rw [List.append_assoc, List.append_assoc,
            readList_item hinner hwritable hread (ends_blank (hgap _) _) (by omega),
            readList_blank (hgap _)]
          refine hrest ?_
          obtain ⟨c, cs, hhead, -⟩ := write_head (fun path => gap (i :: path)) hwritable
          have hpos := List.length_pos_of_ne_nil (String.utf8EncodeChar_ne_nil (c := c))
          rw [hhead, encode_cons, List.length_append] at hfuel
          omega

/-- Every form that can be written reads back. -/
theorem reads_back {form : Sexp} (hform : form.Writable) : ReadsBack form := by
  induction hform with
  | number n =>
      intro gap hgap len fuel ks hks hfuel
      obtain ⟨fuel, rfl⟩ : ∃ n, fuel = n + 1 := ⟨fuel - 1, by omega⟩
      obtain ⟨c, cs, htext, hstart, hinside, hparse⟩ := integer_text n
      have hne : ∀ d, startsNumber d = false → c ≠ d := by
        rintro d hd rfl
        rw [hd] at hstart
        cases hstart
      unfold Sexp.write
      rw [htext, readExpr_atom hinside ⟨hne _ (by decide), hne _ (by decide), hne _ (by decide)⟩ hks,
        if_pos hstart, hparse]
  | bool b =>
      intro gap hgap len fuel ks hks hfuel
      obtain ⟨fuel, rfl⟩ : ∃ n, fuel = n + 1 := ⟨fuel - 1, by omega⟩
      unfold Sexp.write
      rw [List.cons_append, readExpr_visible _ (by decide) (by decide)]
      cases b <;> rfl
  | nil =>
      intro gap hgap len fuel ks hks hfuel
      unfold Sexp.write at hfuel ⊢
      obtain ⟨fuel, rfl⟩ : ∃ n, fuel = n + 2 := ⟨fuel - 2, by
        have hlen : (encode ['(', ')']).length = 2 := rfl
        omega⟩
      rw [List.cons_append, readExpr_visible _ (by decide) (by decide), if_pos rfl]
      exact readList_close len fuel [] ks
  | string s =>
      intro gap hgap len fuel ks hks hfuel
      obtain ⟨fuel, rfl⟩ : ∃ n, fuel = n + 1 := ⟨fuel - 1, by omega⟩
      unfold Sexp.write
      rw [List.cons_append, readExpr_visible _ (by decide) (by decide), if_neg (by decide),
        if_neg (by decide), if_pos rfl, List.append_assoc]
      have hread := @readString_write ks s.toList []
      rw [List.nil_append, String.ofList_toList] at hread
      exact hread
  | @symbol name hname =>
      intro gap hgap len fuel ks hks hfuel
      obtain ⟨fuel, rfl⟩ : ∃ n, fuel = n + 1 := ⟨fuel - 1, by omega⟩
      obtain ⟨c, cs, htext, hinside, hstring, hquote, hhash, hnil, hnumber⟩ := hname
      have hname : String.ofList (c :: cs) = name := by rw [← htext, String.ofList_toList]
      unfold Sexp.write
      rw [htext] at hinside ⊢
      rw [readExpr_atom hinside ⟨hstring, hquote, hhash⟩ hks, hname]
      cases hstart : startsNumber c with
      | true =>
          rw [hnumber hstart]
          rfl
      | false =>
          rw [if_neg (by decide), if_neg hnil]
  | @list items hne hitems ih =>
      intro gap hgap len fuel ks hks hfuel
      unfold Sexp.write at hfuel ⊢
      have hlen : (encode ('(' :: (Sexp.writeAll gap 0 items ++ [')']))).length =
          (encode (Sexp.writeAll gap 0 items)).length + 2 := by
        rw [encode_cons, encode_append, List.length_append, List.length_append]
        have hopen : (String.utf8EncodeChar '(').length = 1 := rfl
        have hclose : (encode [')']).length = 1 := rfl
        omega
      obtain ⟨fuel, rfl⟩ : ∃ n, fuel = n + 1 := ⟨fuel - 1, by omega⟩
      rw [List.cons_append, readExpr_visible _ (by decide) (by decide), if_pos rfl,
        List.append_assoc]
      exact readList_write hgap len ks items [] 0 fuel (fun item hitem =>
        ⟨hitems item hitem, ih item hitem⟩) hne (by omega)

/-- A form of a program reads back, and the program goes on behind it. -/
theorem readForms_item (hgap : ∀ path, Blank (gap path)) {form : Sexp} (hform : form.Writable)
    {len fuel : Nat} {out : List Sexp} {ks : List Char} (hks : Ends ks)
    (hfuel : 2 * (encode (Sexp.write gap form)).length + 1 ≤ fuel) :
    readForms len (fuel + 1) out (encode (Sexp.write gap form ++ ks)) =
      readForms len fuel (out ++ [form]) (encode ks) := by
  obtain ⟨c, cs, hhead, hvisible, hsemi, -⟩ := write_head gap hform
  have hread := reads_back hform gap hgap len fuel ks hks hfuel
  rw [hhead, List.cons_append] at hread ⊢
  obtain ⟨b, rest, hat⟩ := atChar_visible (cs ++ ks) hvisible hsemi
  rw [readForms_cons hat.skip, ← hat.bytes, hread]
  rfl

/-- Blanks between forms are skipped. -/
theorem readForms_blank {blank : List Char} (hblank : Blank blank) (len : Nat) (out : List Sexp)
    (ks : List Char) : ∀ fuel,
    readForms len fuel out (encode (blank ++ ks)) = readForms len fuel out (encode ks) := by
  intro fuel
  cases fuel with
  | zero => rfl
  | succ fuel =>
      have hskip : skipWsAndComments (encode (blank ++ ks)) = skipWsAndComments (encode ks) := by
        rw [encode_append]
        exact skipFrom_blank hblank (encode ks)
      rw [readForms, readForms, readOne, readOne, hskip]

/-- The forms of a program read back. -/
theorem readForms_write (hgap : ∀ path, Blank (gap path)) (len : Nat) :
    ∀ (forms out : List Sexp) (i fuel : Nat), (∀ form ∈ forms, form.Writable) →
      2 * (encode (Sexp.writeAll gap i forms)).length + 2 ≤ fuel →
        readForms len fuel out (encode (Sexp.writeAll gap i forms)) = .ok (out ++ forms) := by
  intro forms
  induction forms with
  | nil =>
      intro out i fuel _ hfuel
      obtain ⟨fuel, rfl⟩ : ∃ n, fuel = n + 1 := ⟨fuel - 1, by omega⟩
      unfold Sexp.writeAll
      rw [readForms_nil rfl, List.append_nil]
  | cons form forms ih =>
      intro out i fuel hforms hfuel
      have hwritable := hforms form List.mem_cons_self
      have hinner : ∀ path, Blank (gap (i :: path)) := fun path => hgap _
      obtain ⟨fuel, rfl⟩ : ∃ n, fuel = n + 1 := ⟨fuel - 1, by omega⟩
      obtain ⟨c, cs, hhead, -⟩ := write_head (fun path => gap (i :: path)) hwritable
      have hpos : 1 ≤ (encode (Sexp.write (fun path => gap (i :: path)) form)).length := by
        rw [hhead, encode_cons, List.length_append]
        have hpos := List.length_pos_of_ne_nil (String.utf8EncodeChar_ne_nil (c := c))
        omega
      have hrest := ih (out ++ [form]) (i + 1) fuel fun x hx => hforms x (List.mem_cons_of_mem _ hx)
      rw [List.append_assoc] at hrest
      cases forms with
      | nil =>
          have hone : Sexp.writeAll gap i [form] =
              Sexp.write (fun path => gap (i :: path)) form ++ [] := by
            rw [Sexp.writeAll, List.append_nil]
          rw [hone] at hfuel ⊢
          rw [List.append_nil] at hfuel
          rw [readForms_item hinner hwritable (fun _ _ h => by cases h) (by omega)]
          refine hrest ?_
          rw [Sexp.writeAll, encode_nil, List.length_nil]
          omega
      | cons form' forms =>
          have hmore : Sexp.writeAll gap i (form :: form' :: forms) =
              Sexp.write (fun path => gap (i :: path)) form ++
                (gap [i] ++ Sexp.writeAll gap (i + 1) (form' :: forms)) := by
            rw [Sexp.writeAll]
            simp
          rw [hmore] at hfuel ⊢
          rw [encode_append, encode_append, List.length_append, List.length_append] at hfuel
          rw [readForms_item hinner hwritable (ends_blank (hgap _) _) (by omega),
            readForms_blank (hgap _)]
          exact hrest (by omega)

end Lists

end Reader

/-- Every source text is read to the end: the reader reports one of its messages, or it makes forms
that can be written, and what is written of them reads back.  No byte of the text fails to
decode. -/
theorem source_text_reads (src : String) : Library.Outcome Reported (readAll src) fun forms =>
    (∀ form ∈ forms, form.Writable) ∧ ∀ gap : List Nat → String,
      (∀ path, Blank (gap path).toList) → readAll (writeText gap forms) = .ok forms := by
  have hread := readForms_text (encode src.toList).length _ src.toList []
    (fun _ h => absurd h List.not_mem_nil) (Nat.le_refl _)
  rw [readAll_eq]
  refine hread.mono fun forms hforms => ⟨hforms, fun gap hgap => ?_⟩
  rw [readAll_eq, writeText, String.toList_ofList]
  exact readForms_write hgap _ forms [] 0 _ hforms (Nat.le_refl _)

/-- A program that is written out, with blanks and comments of any kind in the gaps between its forms
and between their items, reads back. -/
theorem written_text_reads (gap : List Nat → String) (hgap : ∀ path, Blank (gap path).toList)
    (forms : List Sexp) (hforms : ∀ form ∈ forms, form.Writable) :
    readAll (writeText gap forms) = .ok forms := by
  rw [readAll_eq, writeText, String.toList_ofList]
  exact readForms_write hgap _ forms [] 0 _ hforms (Nat.le_refl _)

/-- A line break behind the first form, a comment behind every item. -/
theorem written_text_reads_call :
    readAll (writeText (fun path => if path = [0] then "\n" else " ; say\n")
      [.list [.symbol "display", .string "a \"b\"\n", .number (-7)], .nil]) =
    .ok [.list [.symbol "display", .string "a \"b\"\n", .number (-7)], .nil] := by
  refine written_text_reads _ ?_ _ ?_
  · intro path
    by_cases hfirst : path = [0]
    · rw [if_pos hfirst]
      exact @Blank.space '\n' (by decide)
    · rw [if_neg hfirst]
      exact @Blank.append [' '] _ (.space (by decide))
        (@Blank.comment [' ', 's', 'a', 'y'] (by decide))
  · have hname : SymbolText "display" :=
      @symbolText_of_letters "display" 'd' ['i', 's', 'p', 'l', 'a', 'y'] rfl (by decide)
        (by decide) (by decide) (by decide)
    intro form hform
    rcases List.mem_cons.1 hform with rfl | hform
    · refine .list (by simp) fun item hitem => ?_
      rcases List.mem_cons.1 hitem with rfl | hitem
      · exact .symbol hname
      · rcases List.mem_cons.1 hitem with rfl | hitem
        · exact .string _
        · rw [List.mem_singleton.1 hitem]
          exact .number _
    · rw [List.mem_singleton.1 hform]
      exact .nil

end NewGc.Lisp
