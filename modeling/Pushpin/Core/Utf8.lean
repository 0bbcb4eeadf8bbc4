import Mathlib.Data.List.Basic

/-! # Qt 5's UTF-8 codec

`QString::toUtf8()` and `QString::fromUtf8(const QByteArray &)` as Qt 5 (the `qtbase5-dev`
the build installs) computes them. A well-formed UTF-16 string is a sequence of Unicode
scalar values, a Lean `String`; a `QByteArray` is a list of bytes.

The encoder writes each code point in one to four bytes. The decoder follows
`QUtf8::convertToUnicode` and `QUtf8Functions::fromUtf8`: the `QByteArray` overload first
cuts the array at its first NUL byte (`qstrnlen`), a leading UTF-8 byte-order mark is
skipped, and each sequence is checked for its lead byte, its continuation bytes, overlong
forms, surrogates and the end of Unicode; a byte that starts no valid sequence becomes
U+FFFD. Bytes are read as `Nat`, so the checks are arithmetic.
-/

namespace Pushpin.Utf8
set_option autoImplicit false

def encodePoint (n : Nat) : List Nat :=
  if n < 0x80 then [n]
  else if n < 0x800 then [0xC0 + n / 0x40, 0x80 + n % 0x40]
  else if n < 0x10000 then [0xE0 + n / 0x1000, 0x80 + n / 0x40 % 0x40, 0x80 + n % 0x40]
  else [0xF0 + n / 0x40000, 0x80 + n / 0x1000 % 0x40, 0x80 + n / 0x40 % 0x40, 0x80 + n % 0x40]

def toUtf8 (s : String) : List UInt8 :=
  (s.data.flatMap fun c => encodePoint c.toNat).map UInt8.ofNat

def isContinuationByte (b : Nat) : Bool := 0x80 ≤ b && b < 0xC0

/-- What a lead byte above 0x7F announces: the length of its sequence, the least code point
that length may encode, and the lead's payload bits; `none` for 0x80-0xC1 and 0xF5-0xFF. -/
def leadByte (b : Nat) : Option (Nat × Nat × Nat) :=
  if b ≤ 0xC1 then none
  else if b < 0xE0 then some (2, 0x80, b - 0xC0)
  else if b < 0xF0 then some (3, 0x800, b - 0xE0)
  else if b < 0xF5 then some (4, 0x10000, b - 0xF0)
  else none

def continuationBytes : Nat → Nat → List Nat → Option (Nat × List Nat)
  | 0, uc, rest => some (uc, rest)
  | _ + 1, _, [] => none
  | k + 1, uc, b :: rest =>
    if isContinuationByte b then continuationBytes k (uc * 0x40 + (b - 0x80)) rest else none

/-- `QUtf8Functions::fromUtf8` on the sequence at the front: its code point and the bytes
after it, or `none` for `Error` and `EndOfString`. -/
def decodeSequence : List Nat → Option (Nat × List Nat)
  | [] => none
  | b :: rest =>
    if b < 0x80 then some (b, rest)
    else do
      let (needed, minUc, uc) ← leadByte b
      let (uc, rest) ← continuationBytes (needed - 1) uc rest
      if uc < minUc ∨ (0xD800 ≤ uc ∧ uc ≤ 0xDFFF) ∨ 0x10FFFF < uc then none
      else some (uc, rest)

/-- The loop of `QUtf8::convertToUnicode`: a byte that starts no sequence is replaced by
U+FFFD and decoding goes on at the next byte. `fuel` bounds the steps; each consumes a byte,
so the length of the input is enough. -/
def decodeBytes : Nat → List Nat → List Char
  | 0, _ => []
  | _ + 1, [] => []
  | fuel + 1, b :: rest =>
    match decodeSequence (b :: rest) with
    | some (uc, rest') => Char.ofNat uc :: decodeBytes fuel rest'
    | none => '\uFFFD' :: decodeBytes fuel rest

def skipBom (bs : List Nat) : List Nat :=
  if bs.take 3 = [0xEF, 0xBB, 0xBF] then bs.drop 3 else bs

def fromUtf8 (bytes : List UInt8) : String :=
  let bs := skipBom ((bytes.map UInt8.toNat).takeWhile (· ≠ 0))
  ⟨decodeBytes bs.length bs⟩

/-! ## `fromUtf8` inverts `toUtf8` on strings that start with no BOM and hold no NUL -/

def IsScalar (n : Nat) : Prop := n < 0xD800 ∨ (0xDFFF < n ∧ n < 0x110000)

theorem isScalar_toNat (c : Char) : IsScalar c.toNat := c.valid

theorem encodePoint_lt {n : Nat} (hn : IsScalar n) : ∀ b ∈ encodePoint n, b < 0x100 := by
  unfold IsScalar at hn
  unfold encodePoint
  split_ifs <;> simp only [List.mem_cons, List.mem_singleton, List.not_mem_nil, or_false] <;>
    rintro b (rfl | rfl | rfl | rfl) <;> omega

theorem encodePoint_ne_zero {n : Nat} (hn : n ≠ 0) : ∀ b ∈ encodePoint n, b ≠ 0 := by
  unfold encodePoint
  split_ifs <;> simp only [List.mem_cons, List.mem_singleton, List.not_mem_nil, or_false] <;>
    rintro b (rfl | rfl | rfl | rfl) <;> omega

@[simp]
theorem isContinuationByte_payload (m : Nat) : isContinuationByte (0x80 + m % 0x40) = true := by
  simp only [isContinuationByte, Bool.and_eq_true, decide_eq_true_eq]
  omega

theorem decodeSequence_encodePoint {n : Nat} (hn : IsScalar n) (rest : List Nat) :
    decodeSequence (encodePoint n ++ rest) = some (n, rest) := by
  unfold IsScalar at hn
  unfold encodePoint
  split_ifs with h₁ h₂ h₃
  · simp [decodeSequence, h₁]
  · have hLead : leadByte (0xC0 + n / 0x40) = some (2, 0x80, n / 0x40) := by
      unfold leadByte
      rw [if_neg (by omega), if_pos (by omega), Nat.add_sub_cancel_left]
    simp only [List.cons_append, List.nil_append, decodeSequence, if_neg (show ¬0xC0 + n / 0x40 < 0x80 by omega),
      hLead, Option.bind_eq_bind, Option.some_bind, continuationBytes, isContinuationByte_payload,
      if_true]
    rw [if_neg (by omega)]
    simp only [Option.some.injEq, Prod.mk.injEq, and_true]
    omega
  · have hLead : leadByte (0xE0 + n / 0x1000) = some (3, 0x800, n / 0x1000) := by
      unfold leadByte
      rw [if_neg (by omega), if_neg (by omega), if_pos (by omega), Nat.add_sub_cancel_left]
    simp only [List.cons_append, List.nil_append, decodeSequence, if_neg (show ¬0xE0 + n / 0x1000 < 0x80 by omega),
      hLead, Option.bind_eq_bind, Option.some_bind, continuationBytes, isContinuationByte_payload,
      if_true]
    rw [if_neg (by omega)]
    simp only [Option.some.injEq, Prod.mk.injEq, and_true]
    omega
  · have hLead : leadByte (0xF0 + n / 0x40000) = some (4, 0x10000, n / 0x40000) := by
      unfold leadByte
      rw [if_neg (by omega), if_neg (by omega), if_neg (by omega), if_pos (by omega),
        Nat.add_sub_cancel_left]
    simp only [List.cons_append, List.nil_append, decodeSequence, if_neg (show ¬0xF0 + n / 0x40000 < 0x80 by omega),
      hLead, Option.bind_eq_bind, Option.some_bind, continuationBytes, isContinuationByte_payload,
      if_true]
    rw [if_neg (by omega)]
    simp only [Option.some.injEq, Prod.mk.injEq, and_true]
    omega

theorem encodePoint_cons (n : Nat) : ∃ b bs, encodePoint n = b :: bs := by
  unfold encodePoint
  split_ifs <;> exact ⟨_, _, rfl⟩

def encodeChars (cs : List Char) : List Nat :=
  cs.flatMap fun c => encodePoint c.toNat

theorem decodeBytes_encodeChars :
    ∀ (cs : List Char) (fuel : Nat), (encodeChars cs).length ≤ fuel →
      decodeBytes fuel (encodeChars cs) = cs
  | [], fuel, _ => by cases fuel <;> rfl
  | c :: cs, fuel, h => by
    obtain ⟨b, bs, hbs⟩ := encodePoint_cons c.toNat
    have hSeq := decodeSequence_encodePoint (isScalar_toNat c) (encodeChars cs)
    have hCons : encodeChars (c :: cs) = b :: (bs ++ encodeChars cs) := by
      simp [encodeChars, hbs]
    rw [hbs, List.cons_append] at hSeq
    rw [hCons] at h ⊢
    obtain ⟨f, rfl⟩ : ∃ f, fuel = f + 1 := ⟨fuel - 1, by simp at h; omega⟩
    have hRest : (encodeChars cs).length ≤ f := by simp at h; omega
    simp only [decodeBytes, hSeq, Char.ofNat_toNat, decodeBytes_encodeChars cs f hRest]

theorem toUtf8_toNat (s : String) : (toUtf8 s).map UInt8.toNat = encodeChars s.data := by
  rw [toUtf8, List.map_map, ← List.map_id (encodeChars s.data)]
  refine List.map_congr_left fun b hb => UInt8.toNat_ofNat_of_lt ?_
  obtain ⟨c, -, hc⟩ := List.mem_flatMap.1 hb
  exact encodePoint_lt (isScalar_toNat c) b hc

theorem encodeChars_ne_zero {cs : List Char} (h : '\x00' ∉ cs) : ∀ b ∈ encodeChars cs, b ≠ 0 := by
  intro b hb
  obtain ⟨c, hc, hbc⟩ := List.mem_flatMap.1 hb
  refine encodePoint_ne_zero (fun h0 => h ?_) b hbc
  rwa [show c = '\x00' by rw [← Char.ofNat_toNat c, h0]] at hc

theorem encodePoint_take_three {n : Nat} (hn : n ≠ 0xFEFF) (rest : List Nat) :
    (encodePoint n ++ rest).take 3 ≠ [0xEF, 0xBB, 0xBF] := by
  intro h
  unfold encodePoint at h
  split_ifs at h <;>
    simp only [List.cons_append, List.nil_append, List.take_succ_cons, List.cons.injEq] at h <;>
    omega

theorem skipBom_encodeChars {cs : List Char} (h : cs.head? ≠ some '\uFEFF') :
    skipBom (encodeChars cs) = encodeChars cs := by
  cases cs with
  | nil => rfl
  | cons c cs =>
    have hc : c.toNat ≠ 0xFEFF := fun hc => h (by
      rw [List.head?_cons, show c = '\uFEFF' by rw [← Char.ofNat_toNat c, hc]])
    simp only [skipBom, encodeChars, List.flatMap_cons]
    rw [if_neg (encodePoint_take_three hc _)]

theorem fromUtf8_eq_of {bytes : List UInt8} {cs : List Char}
    (h : skipBom ((bytes.map UInt8.toNat).takeWhile (· ≠ 0)) = encodeChars cs) :
    fromUtf8 bytes = ⟨cs⟩ := by
  simp only [fromUtf8, h]
  exact congrArg String.mk (decodeBytes_encodeChars cs _ le_rfl)

theorem takeWhile_encodeChars {cs : List Char} (h : '\x00' ∉ cs) :
    (encodeChars cs).takeWhile (· ≠ 0) = encodeChars cs :=
  List.takeWhile_eq_self_iff.2 fun b hb => by simpa using encodeChars_ne_zero h b hb

/-- `fromUtf8` inverts `toUtf8` on every string that holds no U+0000 and does not start with
U+FEFF. -/
theorem fromUtf8_toUtf8 {s : String} (hNul : '\x00' ∉ s.data)
    (hBom : s.data.head? ≠ some '\uFEFF') : fromUtf8 (toUtf8 s) = s :=
  fromUtf8_eq_of (by rw [toUtf8_toNat, takeWhile_encodeChars hNul, skipBom_encodeChars hBom])

/-- A leading U+FEFF is lost: its bytes are taken for a byte-order mark. -/
theorem fromUtf8_toUtf8_bom {s : String} (hNul : '\x00' ∉ s.data) :
    fromUtf8 (toUtf8 ("\uFEFF" ++ s)) = s := by
  refine fromUtf8_eq_of ?_
  have hBytes : encodeChars ("\uFEFF" ++ s).data = [0xEF, 0xBB, 0xBF] ++ encodeChars s.data := by
    simp [encodeChars]; rfl
  rw [toUtf8_toNat, hBytes, List.takeWhile_append_of_pos (by decide),
    takeWhile_encodeChars hNul, skipBom]
  simp

theorem fromUtf8_toUtf8_bom_ab : fromUtf8 (toUtf8 ("\uFEFF" ++ "ab")) = "ab" :=
  fromUtf8_toUtf8_bom (by decide)

/-- Everything from a U+0000 on is lost: the `QByteArray` overload stops at a NUL byte. -/
theorem fromUtf8_toUtf8_nul {s : String} (t : String) (hNul : '\x00' ∉ s.data)
    (hBom : s.data.head? ≠ some '\uFEFF') : fromUtf8 (toUtf8 (s ++ "\x00" ++ t)) = s := by
  refine fromUtf8_eq_of ?_
  have hBytes : encodeChars (s ++ "\x00" ++ t).data =
      encodeChars s.data ++ 0 :: encodeChars t.data := by
    simp [encodeChars]; rfl
  rw [toUtf8_toNat, hBytes, List.takeWhile_append_of_pos (by simpa using encodeChars_ne_zero hNul),
    List.takeWhile_cons_of_neg (by simp), List.append_nil, skipBom_encodeChars hBom]

theorem fromUtf8_toUtf8_nul_ab : fromUtf8 (toUtf8 ("ab" ++ "\x00" ++ "cd")) = "ab" :=
  fromUtf8_toUtf8_nul "cd" (by decide) (by decide)

/-! ## What any byte array decodes to

The decoder consumes at least one byte a step, so the fuel of `fromUtf8` never cuts it short;
it yields a scalar value or U+FFFD a step, and U+0000 only for a 0 byte, which the
`QByteArray` overload never passes it. -/

theorem continuationBytes_suffix {k uc uc' : Nat} {rest rest' : List Nat}
    (h : continuationBytes k uc rest = some (uc', rest')) : rest' <:+ rest := by
  induction k generalizing uc rest with
  | zero =>
    obtain ⟨-, rfl⟩ := Prod.mk.inj (Option.some.inj h)
    exact List.suffix_refl _
  | succ k ih =>
    cases rest with
    | nil => cases h
    | cons b rest =>
      simp only [continuationBytes] at h
      split at h
      · exact (ih h).trans (List.suffix_cons b rest)
      · cases h

theorem leadByte_min {b k m p : Nat} (h : leadByte b = some (k, m, p)) : 0x80 ≤ m := by
  unfold leadByte at h
  split_ifs at h <;> cases h <;> omega

theorem decodeSequence_some {b uc : Nat} {rest rest' : List Nat}
    (h : decodeSequence (b :: rest) = some (uc, rest')) :
    rest' <:+ rest ∧ IsScalar uc ∧ (b ≠ 0 → uc ≠ 0) := by
  dsimp only [decodeSequence] at h
  split_ifs at h with hb
  · obtain ⟨rfl, rfl⟩ := Prod.mk.inj (Option.some.inj h)
    exact ⟨List.suffix_refl _, .inl (by omega), id⟩
  · simp only [Option.bind_eq_bind, Option.bind_eq_some] at h
    obtain ⟨⟨k, m, p⟩, hL, ⟨uc', r⟩, hC, h⟩ := h
    dsimp only at h hC
    split_ifs at h with hRange
    obtain ⟨rfl, rfl⟩ := Prod.mk.inj (Option.some.inj h)
    have hm := leadByte_min hL
    exact ⟨continuationBytes_suffix hC, by unfold IsScalar; omega, fun _ => by omega⟩

theorem decodeBytes_nil (fuel : Nat) : decodeBytes fuel [] = [] := by
  cases fuel <;> rfl

/-- The fuel of `fromUtf8` is enough: every step consumes a byte, so any fuel from the
length of the input on gives the same characters. -/
theorem decodeBytes_fuel : ∀ (fuel fuel' : Nat) (bs : List Nat), bs.length ≤ fuel →
    bs.length ≤ fuel' → decodeBytes fuel bs = decodeBytes fuel' bs
  | fuel, fuel', [], _, _ => by rw [decodeBytes_nil, decodeBytes_nil]
  | 0, _, _ :: _, h, _ => absurd h (by simp)
  | _, 0, _ :: _, _, h => absurd h (by simp)
  | fuel + 1, fuel' + 1, b :: rest, h, h' => by
    simp only [List.length_cons] at h h'
    simp only [decodeBytes]
    split
    next uc rest' hSeq =>
      have := (decodeSequence_some hSeq).1.length_le
      rw [decodeBytes_fuel fuel fuel' rest' (by omega) (by omega)]
    next => rw [decodeBytes_fuel fuel fuel' rest (by omega) (by omega)]

theorem decodeBytes_no_nul : ∀ (fuel : Nat) (bs : List Nat), (∀ b ∈ bs, b ≠ 0) →
    '\x00' ∉ decodeBytes fuel bs ∧ (decodeBytes fuel bs).length ≤ bs.length
  | 0, _, _ => by simp [decodeBytes]
  | _ + 1, [], _ => by simp [decodeBytes]
  | fuel + 1, b :: rest, hbs => by
    have hb : b ≠ 0 := hbs b (List.mem_cons_self b rest)
    simp only [decodeBytes]
    split
    next uc rest' hSeq =>
      obtain ⟨hSuf, hScalar, hNZ⟩ := decodeSequence_some hSeq
      obtain ⟨hNul, hLen⟩ := decodeBytes_no_nul fuel rest'
        fun b hb => hbs b (.tail _ (hSuf.subset hb))
      have hChar : (Char.ofNat uc).toNat = uc := by
        rw [Char.ofNat, dif_pos (show uc.isValidChar from hScalar)]; rfl
      have := hSuf.length_le
      simp only [List.mem_cons, not_or, List.length_cons]
      exact ⟨⟨fun hc => hNZ hb (by rw [← hChar, ← hc]; rfl), hNul⟩, by omega⟩
    next =>
      obtain ⟨hNul, hLen⟩ := decodeBytes_no_nul fuel rest fun b hb => hbs b (.tail _ hb)
      simp only [List.mem_cons, not_or, List.length_cons]
      exact ⟨⟨by decide, hNul⟩, by omega⟩

theorem skipBom_suffix (bs : List Nat) : skipBom bs <:+ bs := by
  unfold skipBom
  split
  · exact List.drop_suffix 3 bs
  · exact List.suffix_refl bs

/-- Qt's decoder never yields U+0000 and yields at most one character per byte, whatever
the bytes. -/
theorem fromUtf8_no_nul (bytes : List UInt8) :
    '\x00' ∉ (fromUtf8 bytes).data ∧ (fromUtf8 bytes).length ≤ bytes.length := by
  have hCut := List.takeWhile_prefix (l := bytes.map UInt8.toNat) (· ≠ 0)
  have hSkip := skipBom_suffix ((bytes.map UInt8.toNat).takeWhile (· ≠ 0))
  obtain ⟨hNul, hLen⟩ := decodeBytes_no_nul _ _ fun b hb => by
    simpa using List.mem_takeWhile_imp (hSkip.subset hb)
  have := hSkip.length_le
  have := hCut.length_le
  simp only [List.length_map] at *
  exact ⟨hNul, by simp only [fromUtf8, String.length]; omega⟩

end Pushpin.Utf8
