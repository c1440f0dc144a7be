import Mathlib.Data.List.GetD
import Mathlib.Data.List.Nodup
import ProofProse.Encoding

/-! # Decoding what was encoded

The decoder of UTF-8 is a machine; what it accepts is said here by the bytes of single characters. A
first byte begins a character and the bytes that it asks for complete it (`Utf8.Spells`). The
machine reads such bytes as one character with nothing missing, and it reads no others so; and they
are the bytes that the character is encoded in. So bytes are well formed exactly if they encode some
text, and then they are read as that text (`Utf8.decode?_eq_some_iff`).

The other two decoders have shorter arguments: two code units of a pair are read as one character
(`Utf16.output_encodeChar`), and no two bytes have the same character in the code page
(`Windows1252.charOf_injective`).

A text in UTF-8 never begins as the marks of UTF-16 do, and begins as the mark of UTF-8 does only if
its first character is the mark. So no format takes what another has written
(`decoding_undoes_encoding`). -/

namespace ProofProse.Encoding

theorem ofNat_eq_byte {n : Nat} {byte : UInt8} (h : n = byte.toNat) : UInt8.ofNat n = byte := by
  rw [h, UInt8.ofNat_toNat]

theorem toNat_ofNat_of_lt {n : Nat} (h : n < 256) : (UInt8.ofNat n).toNat = n := by
  rw [UInt8.toNat_ofNat', Nat.mod_eq_of_lt h]

theorem toNat_bounds (c : Char) :
    c.toNat < 0xD800 ∨ 0xDFFF < c.toNat ∧ c.toNat < 0x110000 := by
  have h := c.valid
  unfold UInt32.isValidChar Nat.isValidChar at h
  exact h

theorem toNat_charOfNat {n : Nat} (h : n < 0xD800 ∨ 0xDFFF < n ∧ n < 0x110000) :
    (Char.ofNat n).toNat = n := by
  unfold Char.ofNat
  rw [dif_pos (show n.isValidChar from h)]
  rfl

/-! ### UTF-8 -/

namespace Utf8

variable {p : Pending} {byte : UInt8} {bytes front tail rest : Bytes} {c : Char} {cs : List Char}
  {n : Nat}

/-- A byte may stand next in a character that has been begun. -/
def Pending.Takes (p : Pending) (byte : UInt8) : Prop :=
  p.least ≤ byte.toNat ∧ byte.toNat ≤ p.greatest

/-- The value of a character that has been begun, with one more byte. -/
def Pending.add (p : Pending) (byte : UInt8) : Nat := p.value * 64 + (byte.toNat - 0x80)

/-- Some bytes complete a character that has been begun, and `n` is its number. -/
inductive Completes : Pending → Bytes → Nat → Prop
  | last {p : Pending} {byte : UInt8} (htakes : p.Takes byte) (hneeded : p.needed ≤ 1) :
      Completes p [byte] (p.add byte)
  | more {p : Pending} {byte : UInt8} {tail : Bytes} {n : Nat} (htakes : p.Takes byte)
      (hneeded : 1 < p.needed) (h : Completes ⟨p.needed - 1, p.add byte, 0x80, 0xBF⟩ tail n) :
      Completes p (byte :: tail) n

/-- Some bytes are a single character, and `n` is its number. -/
inductive Spells : Bytes → Nat → Prop
  | single {byte : UInt8} (h : byte.toNat ≤ 0x7F) : Spells [byte] byte.toNat
  | begun {byte : UInt8} {p : Pending} {tail : Bytes} {n : Nat}
      (hbegin : begin byte.toNat = (some p, [])) (h : Completes p tail n) : Spells (byte :: tail) n

/-! #### First bytes -/

theorem begin_single {b : Nat} (h : b ≤ 0x7F) : begin b = (none, [some (Char.ofNat b)]) := by
  unfold begin
  rw [if_pos h]

theorem begin_two {b : Nat} (h : 0xC2 ≤ b) (h' : b ≤ 0xDF) :
    begin b = (some ⟨1, b - 0xC0, 0x80, 0xBF⟩, []) := by
  unfold begin
  rw [if_neg (by omega), if_pos ⟨h, h'⟩]

/-- The second of three bytes is bounded so that shorter forms and halves of pairs are left out. -/
theorem begin_three {b : Nat} (h : 0xE0 ≤ b) (h' : b ≤ 0xEF) :
    begin b = (some ⟨2, b - 0xE0, if b = 0xE0 then 0xA0 else 0x80,
      if b = 0xED then 0x9F else 0xBF⟩, []) := by
  by_cases hfirst : b = 0xE0
  · subst hfirst
    rfl
  by_cases hhalf : b = 0xED
  · subst hhalf
    rfl
  unfold begin
  rw [if_neg (by omega), if_neg (by omega), if_neg hfirst, if_neg hhalf, if_pos (by omega),
    if_neg hfirst, if_neg hhalf]

/-- The second of four bytes is bounded so that shorter forms and too great numbers are left out. -/
theorem begin_four {b : Nat} (h : 0xF0 ≤ b) (h' : b ≤ 0xF4) :
    begin b = (some ⟨3, b - 0xF0, if b = 0xF0 then 0x90 else 0x80,
      if b = 0xF4 then 0x8F else 0xBF⟩, []) := by
  by_cases hfirst : b = 0xF0
  · subst hfirst
    rfl
  by_cases hlast : b = 0xF4
  · subst hlast
    rfl
  unfold begin
  rw [if_neg (by omega), if_neg (by omega), if_neg (by omega), if_neg (by omega), if_neg (by omega),
    if_neg hfirst, if_neg hlast, if_pos (by omega), if_neg hfirst, if_neg hlast]

theorem begin_none {b : Nat} (h : 0x80 ≤ b ∧ b ≤ 0xC1 ∨ 0xF5 ≤ b) : begin b = (none, [none]) := by
  unfold begin
  rw [if_neg (by omega), if_neg (by omega), if_neg (by omega), if_neg (by omega), if_neg (by omega),
    if_neg (by omega), if_neg (by omega), if_neg (by omega)]

/-! #### Further bytes -/

theorem step_last (htakes : p.Takes byte) (hneeded : p.needed ≤ 1) :
    step (some p) byte = (none, [some (Char.ofNat (p.add byte))]) := by
  unfold step
  dsimp only
  rw [if_pos (show _ ∧ _ from htakes), if_pos hneeded]
  rfl

theorem step_more (htakes : p.Takes byte) (hneeded : 1 < p.needed) :
    step (some p) byte = (some ⟨p.needed - 1, p.add byte, 0x80, 0xBF⟩, []) := by
  unfold step
  dsimp only
  rw [if_pos (show _ ∧ _ from htakes), if_neg (Nat.not_le_of_lt hneeded)]
  rfl

theorem step_refused (h : ¬p.Takes byte) :
    step (some p) byte = ((begin byte.toNat).1, none :: (begin byte.toNat).2) := by
  unfold step
  dsimp only
  rw [if_neg (show ¬(_ ∧ _) from h)]

theorem output_cons (pending : Option Pending) (byte : UInt8) (bytes : Bytes) :
    decoder.output pending (byte :: bytes) =
      (step pending byte).2 ++ decoder.output (step pending byte).1 bytes := rfl

/-! #### Characters -/

/-- The machine reads the bytes that complete a character as that character. -/
theorem output_completes (h : Completes p tail n) :
    decoder.output (some p) (tail ++ rest) = some (Char.ofNat n) :: decoder.output none rest := by
  induction h with
  | last htakes hneeded =>
    rw [List.singleton_append, output_cons, step_last htakes hneeded]
    rfl
  | more htakes hneeded h ih =>
    rw [List.cons_append, output_cons, step_more htakes hneeded]
    exact ih

/-- **A character** is read as itself, whatever is behind it. -/
theorem output_spells (h : Spells front n) :
    decoder.output none (front ++ rest) = some (Char.ofNat n) :: decoder.output none rest := by
  cases h with
  | single h =>
    rw [List.singleton_append, output_cons]
    unfold step
    rw [begin_single h]
    rfl
  | begun hbegin h =>
    rw [List.cons_append, output_cons]
    unfold step
    rw [hbegin]
    exact output_completes h

/-- Where the machine misses nothing, a character that has been begun is completed. -/
theorem completes_of_output : ∀ {bytes : Bytes} {p : Pending},
    decoder.output (some p) bytes = cs.map some →
    ∃ tail rest n cs', bytes = tail ++ rest ∧ Completes p tail n ∧ cs = Char.ofNat n :: cs' ∧
      decoder.output none rest = cs'.map some
  | [], p, h => by
    cases cs <;> cases h
  | byte :: bytes, p, h => by
    rw [output_cons] at h
    by_cases htakes : p.Takes byte
    · by_cases hneeded : p.needed ≤ 1
      · rw [step_last htakes hneeded] at h
        cases cs with
        | nil => cases h
        | cons c cs =>
          obtain ⟨hc, hrest⟩ := List.cons.inj h
          refine ⟨[byte], bytes, p.add byte, cs, rfl, .last htakes hneeded, ?_, hrest⟩
          rw [Option.some.inj hc]
      · have hmore : 1 < p.needed := Nat.lt_of_not_le hneeded
        rw [step_more htakes hmore] at h
        obtain ⟨tail, rest, n, cs', rfl, hcompletes, hcs, hrest⟩ := completes_of_output h
        exact ⟨byte :: tail, rest, n, cs', rfl, .more htakes hmore hcompletes, hcs, hrest⟩
    · rw [step_refused htakes] at h
      cases cs <;> cases h

/-- A byte is a character, or begins one, or the machine misses something. -/
theorem begin_cases (b : Nat) :
    b ≤ 0x7F ∧ begin b = (none, [some (Char.ofNat b)]) ∨ (∃ p, begin b = (some p, [])) ∨
      begin b = (none, [none]) := by
  by_cases hsingle : b ≤ 0x7F
  · exact .inl ⟨hsingle, begin_single hsingle⟩
  by_cases hnone : 0x80 ≤ b ∧ b ≤ 0xC1 ∨ 0xF5 ≤ b
  · exact .inr (.inr (begin_none hnone))
  refine .inr (.inl ?_)
  by_cases htwo : b ≤ 0xDF
  · exact ⟨_, begin_two (by omega) htwo⟩
  by_cases hthree : b ≤ 0xEF
  · exact ⟨_, begin_three (by omega) hthree⟩
  · exact ⟨_, begin_four (by omega) (by omega)⟩

theorem spells_of_output (h : decoder.output none bytes = cs.map some) (hne : bytes ≠ []) :
    ∃ front rest n cs', bytes = front ++ rest ∧ Spells front n ∧ cs = Char.ofNat n :: cs' ∧
      decoder.output none rest = cs'.map some := by
  obtain ⟨byte, bytes, rfl⟩ := List.exists_cons_of_ne_nil hne
  rw [output_cons] at h
  unfold step at h
  dsimp only at h
  rcases begin_cases byte.toNat with ⟨hsingle, hbegin⟩ | ⟨p, hbegin⟩ | hbegin
  · rw [hbegin] at h
    cases cs with
    | nil => cases h
    | cons c cs =>
      obtain ⟨hc, hrest⟩ := List.cons.inj h
      refine ⟨[byte], bytes, byte.toNat, cs, rfl, .single hsingle, ?_, hrest⟩
      rw [Option.some.inj hc]
  · rw [hbegin] at h
    obtain ⟨tail, rest, n, cs', rfl, hcompletes, hcs, hrest⟩ := completes_of_output h
    exact ⟨byte :: tail, rest, n, cs', rfl, .begun hbegin hcompletes, hcs, hrest⟩
  · rw [hbegin] at h
    cases cs <;> cases h

/-! #### The bytes of a character -/

theorem encodeChar_eq (c : Char) : String.utf8EncodeChar c =
    if c.toNat ≤ 0x7F then [UInt8.ofNat c.toNat]
    else if c.toNat ≤ 0x7FF then
      [UInt8.ofNat (c.toNat / 64 % 32 + 0xC0), UInt8.ofNat (c.toNat % 64 + 0x80)]
    else if c.toNat ≤ 0xFFFF then
      [UInt8.ofNat (c.toNat / 4096 % 16 + 0xE0), UInt8.ofNat (c.toNat / 64 % 64 + 0x80),
        UInt8.ofNat (c.toNat % 64 + 0x80)]
    else
      [UInt8.ofNat (c.toNat / 262144 % 8 + 0xF0), UInt8.ofNat (c.toNat / 4096 % 64 + 0x80),
        UInt8.ofNat (c.toNat / 64 % 64 + 0x80), UInt8.ofNat (c.toNat % 64 + 0x80)] := rfl

theorem Pending.add_mk (needed value least greatest : Nat) (byte : UInt8) :
    Pending.add ⟨needed, value, least, greatest⟩ byte = value * 64 + (byte.toNat - 0x80) := by
  unfold Pending.add
  rfl

theorem completes_one {value least greatest : Nat} :
    Completes ⟨1, value, least, greatest⟩ tail n ↔
      ∃ b, tail = [b] ∧ (least ≤ b.toNat ∧ b.toNat ≤ greatest) ∧
        n = value * 64 + (b.toNat - 0x80) := by
  constructor
  · intro h
    cases h with
    | last htakes => exact ⟨_, rfl, htakes, Pending.add_mk ..⟩
    | more _ hneeded => exact absurd hneeded (Nat.lt_irrefl 1)
  · rintro ⟨b, rfl, htakes, hn⟩
    rw [hn, ← Pending.add_mk 1 value least greatest]
    exact .last htakes (Nat.le_refl 1)

theorem completes_more {needed value least greatest : Nat} :
    Completes ⟨needed + 2, value, least, greatest⟩ tail n ↔
      ∃ b tail', tail = b :: tail' ∧ (least ≤ b.toNat ∧ b.toNat ≤ greatest) ∧
        Completes ⟨needed + 1, value * 64 + (b.toNat - 0x80), 0x80, 0xBF⟩ tail' n := by
  constructor
  · intro h
    cases h with
    | last _ hneeded => exact absurd hneeded (by simp)
    | more htakes _ h => exact ⟨_, _, rfl, htakes, h⟩
  · rintro ⟨b, tail', rfl, htakes, h⟩
    exact .more htakes (by simp) h

/-- **The bytes of a character** are those that it is encoded in. -/
theorem spells_encodeChar (c : Char) : Spells (String.utf8EncodeChar c) c.toNat := by
  have hbounds := toNat_bounds c
  rw [encodeChar_eq]
  generalize c.toNat = n at *
  have hlast : (UInt8.ofNat (n % 64 + 0x80)).toNat = n % 64 + 0x80 := toNat_ofNat_of_lt (by omega)
  have hthird : (UInt8.ofNat (n / 64 % 64 + 0x80)).toNat = n / 64 % 64 + 0x80 :=
    toNat_ofNat_of_lt (by omega)
  split
  · next h =>
    have hbyte : (UInt8.ofNat n).toNat = n := toNat_ofNat_of_lt (by omega)
    have hsingle : Spells [UInt8.ofNat n] (UInt8.ofNat n).toNat := .single (by omega)
    rwa [hbyte] at hsingle
  split
  · next h h' =>
    have hfirst : (UInt8.ofNat (n / 64 % 32 + 0xC0)).toNat = n / 64 % 32 + 0xC0 :=
      toNat_ofNat_of_lt (by omega)
    refine .begun (begin_two (by omega) (by omega)) (completes_one.mpr ⟨_, rfl, ?_⟩)
    omega
  split
  · next h h' h'' =>
    have hfirst : (UInt8.ofNat (n / 4096 % 16 + 0xE0)).toNat = n / 4096 % 16 + 0xE0 :=
      toNat_ofNat_of_lt (by omega)
    refine .begun (begin_three (by omega) (by omega)) (completes_more.mpr ⟨_, _, rfl, ?_,
      completes_one.mpr ⟨_, rfl, ?_⟩⟩)
    · split <;> split <;> omega
    · omega
  · next h h' h'' =>
    have hfirst : (UInt8.ofNat (n / 262144 % 8 + 0xF0)).toNat = n / 262144 % 8 + 0xF0 :=
      toNat_ofNat_of_lt (by omega)
    have hsecond : (UInt8.ofNat (n / 4096 % 64 + 0x80)).toNat = n / 4096 % 64 + 0x80 :=
      toNat_ofNat_of_lt (by omega)
    refine .begun (begin_four (by omega) (by omega)) (completes_more.mpr ⟨_, _, rfl, ?_,
      completes_more.mpr ⟨_, _, rfl, ?_, completes_one.mpr ⟨_, rfl, ?_⟩⟩⟩)
    · split <;> split <;> omega
    · omega
    · omega

theorem bounds_of_begin {b : Nat} (h : begin b = (some p, [])) : 0xC2 ≤ b ∧ b ≤ 0xF4 := by
  by_cases hsingle : b ≤ 0x7F
  · rw [begin_single hsingle] at h
    cases h
  by_cases hnone : 0x80 ≤ b ∧ b ≤ 0xC1 ∨ 0xF5 ≤ b
  · rw [begin_none hnone] at h
    cases h
  · omega

theorem Spells.eq_encodeChar (h : Spells front n) :
    front = String.utf8EncodeChar (Char.ofNat n) := by
  have hchar : (n < 0xD800 ∨ 0xDFFF < n ∧ n < 0x110000) → (Char.ofNat n).toNat = n :=
    toNat_charOfNat
  rw [encodeChar_eq]
  cases h with
  | @single byte h =>
    rw [hchar (by omega), if_pos h, ofNat_eq_byte rfl]
  | @begun byte p tail n hbegin h =>
    obtain ⟨hleast, hgreatest⟩ := bounds_of_begin hbegin
    by_cases htwo : byte.toNat ≤ 0xDF
    · rw [begin_two hleast htwo] at hbegin
      cases hbegin
      obtain ⟨b, rfl, hb, hn⟩ := completes_one.mp h
      have hfirst : UInt8.ofNat (n / 64 % 32 + 0xC0) = byte := ofNat_eq_byte (by omega)
      have hlast : UInt8.ofNat (n % 64 + 0x80) = b := ofNat_eq_byte (by omega)
      rw [hchar (by omega), if_neg (by omega), if_pos (by omega), hfirst, hlast]
    by_cases hthree : byte.toNat ≤ 0xEF
    · rw [begin_three (by omega) hthree] at hbegin
      cases hbegin
      obtain ⟨b, _, rfl, hb, h⟩ := completes_more.mp h
      obtain ⟨b', rfl, hb', hn⟩ := completes_one.mp h
      have hrange : 0x80 ≤ b.toNat ∧ b.toNat ≤ 0xBF ∧ 0x7FF < n ∧ (n < 0xD800 ∨ 0xDFFF < n) := by
        split at hb <;> split at hb <;> omega
      have hfirst : UInt8.ofNat (n / 4096 % 16 + 0xE0) = byte := ofNat_eq_byte (by omega)
      have hsecond : UInt8.ofNat (n / 64 % 64 + 0x80) = b := ofNat_eq_byte (by omega)
      have hlast : UInt8.ofNat (n % 64 + 0x80) = b' := ofNat_eq_byte (by omega)
      rw [hchar (by omega), if_neg (by omega), if_neg (by omega), if_pos (by omega), hfirst,
        hsecond, hlast]
    · rw [begin_four (by omega) hgreatest] at hbegin
      cases hbegin
      obtain ⟨b, _, rfl, hb, h⟩ := completes_more.mp h
      obtain ⟨b', _, rfl, hb', h⟩ := completes_more.mp h
      obtain ⟨b'', rfl, hb'', hn⟩ := completes_one.mp h
      have hrange : 0x80 ≤ b.toNat ∧ b.toNat ≤ 0xBF ∧ 0xFFFF < n ∧ n < 0x110000 := by
        split at hb <;> split at hb <;> omega
      have hfirst : UInt8.ofNat (n / 262144 % 8 + 0xF0) = byte := ofNat_eq_byte (by omega)
      have hsecond : UInt8.ofNat (n / 4096 % 64 + 0x80) = b := ofNat_eq_byte (by omega)
      have hthird : UInt8.ofNat (n / 64 % 64 + 0x80) = b' := ofNat_eq_byte (by omega)
      have hlast : UInt8.ofNat (n % 64 + 0x80) = b'' := ofNat_eq_byte (by omega)
      rw [hchar (by omega), if_neg (by omega), if_neg (by omega), if_neg (by omega), hfirst,
        hsecond, hthird, hlast]

/-! #### Texts -/

theorem encode_cons (c : Char) (cs : List Char) :
    encode (c :: cs) = String.utf8EncodeChar c ++ encode cs := List.flatMap_cons

theorem output_encode : ∀ cs : List Char, decoder.output none (encode cs) = cs.map some
  | [] => rfl
  | c :: cs => by
    rw [encode_cons, output_spells (spells_encodeChar c), Char.ofNat_toNat, output_encode cs]
    rfl

theorem eq_encode_of_output : ∀ {cs : List Char} {bytes : Bytes},
    decoder.output none bytes = cs.map some → bytes = encode cs
  | cs, bytes, h => by
    by_cases hbytes : bytes = []
    · subst hbytes
      cases cs with
      | nil => rfl
      | cons c cs => cases h
    · obtain ⟨front, rest, n, cs', hsplit, hspells, rfl, hrest⟩ := spells_of_output h hbytes
      rw [hsplit, encode_cons, ← hspells.eq_encodeChar, eq_encode_of_output hrest]
termination_by cs => cs.length

theorem mapM_id_eq_some_iff {α : Type} : ∀ {xs : List (Option α)} {ys : List α},
    xs.mapM id = some ys ↔ xs = ys.map some
  | [], ys => by
    cases ys <;> simp
  | none :: xs, ys => by
    cases ys <;> simp
  | some x :: xs, ys => by
    have ih : ∀ zs, xs.mapM id = some zs ↔ xs = zs.map some := fun _ => mapM_id_eq_some_iff
    cases ys <;> simp [Option.bind_eq_some_iff, ih, and_comm]

/-- **Well-formed bytes** are those that a text is encoded in, and are read as that text. -/
theorem decode?_eq_some_iff : decode? bytes = some cs ↔ bytes = encode cs := by
  unfold decode? decode
  rw [Text.Transducer.run_eq_output, mapM_id_eq_some_iff]
  constructor
  · exact eq_encode_of_output
  · rintro rfl
    exact output_encode cs

theorem decode?_encode (cs : List Char) : decode? (encode cs) = some cs :=
  decode?_eq_some_iff.mpr rfl

theorem decodeLossy_encode (cs : List Char) : decodeLossy (encode cs) = cs := by
  unfold decodeLossy replaceMissing decode
  rw [Text.Transducer.run_eq_output]
  rw [show decoder.start = none from rfl, output_encode, List.map_map]
  exact List.map_id cs

end Utf8

/-! ### UTF-16 -/

namespace Utf16

variable {bigFirst : Bool}

theorem codeUnit_unitBytes {u : Nat} (h : u < 0x10000) :
    ∃ first second, unitBytes bigFirst u = [first, second] ∧
      codeUnit bigFirst first second = u := by
  have hupper : (UInt8.ofNat (u / 256)).toNat = u / 256 := toNat_ofNat_of_lt (by omega)
  have hlower : (UInt8.ofNat (u % 256)).toNat = u % 256 := toNat_ofNat_of_lt (by omega)
  unfold unitBytes codeUnit
  cases bigFirst with
  | true => exact ⟨_, _, rfl, by rw [if_pos rfl, hupper, hlower]; omega⟩
  | false => exact ⟨_, _, rfl, by rw [if_neg Bool.false_ne_true, hupper, hlower]; omega⟩

theorem output_unit {u : Nat} (h : u < 0x10000) (lead : Option Nat) (rest : Bytes) :
    (decoder bigFirst).output ⟨none, lead⟩ (unitBytes bigFirst u ++ rest) =
      match lead with
      | none => (begin u).2 ++ (decoder bigFirst).output (begin u).1 rest
      | some lead =>
        if isTrail u then some (pair lead u) :: (decoder bigFirst).output ⟨none, none⟩ rest
        else none :: ((begin u).2 ++ (decoder bigFirst).output (begin u).1 rest) := by
  obtain ⟨first, second, hbytes, hunit⟩ := @codeUnit_unitBytes bigFirst _ h
  rw [hbytes]
  show (step bigFirst ⟨some first, lead⟩ second).2 ++
    (decoder bigFirst).output (step bigFirst ⟨some first, lead⟩ second).1 rest = _
  unfold step
  dsimp only
  rw [hunit]
  cases lead with
  | none => rfl
  | some lead =>
    dsimp only
    split <;> rfl

/-- **A character** is read from its code units as itself. -/
theorem output_encodeChar (c : Char) (rest : Bytes) :
    (decoder bigFirst).output ⟨none, none⟩ ((codeUnits c).flatMap (unitBytes bigFirst) ++ rest) =
      some c :: (decoder bigFirst).output ⟨none, none⟩ rest := by
  have hbounds := toNat_bounds c
  have hnumber : ∀ n, n = c.toNat → Char.ofNat n = c := by
    rintro n rfl
    exact Char.ofNat_toNat c
  unfold codeUnits
  split
  · next hsmall =>
    have hunit : begin c.toNat = (⟨none, none⟩, [some c]) := by
      unfold begin isLead isTrail
      rw [if_neg (by simp; omega), if_neg (by simp; omega), hnumber _ rfl]
    rw [List.flatMap_singleton, output_unit hsmall none rest, hunit]
    rfl
  · next hgreat =>
    have hlead : isLead (0xD800 + (c.toNat - 0x10000) / 0x400) = true := by
      unfold isLead
      simp
      omega
    have htrail : isTrail (0xDC00 + (c.toNat - 0x10000) % 0x400) = true := by
      unfold isTrail
      simp
      omega
    have hpair : pair (0xD800 + (c.toNat - 0x10000) / 0x400)
        (0xDC00 + (c.toNat - 0x10000) % 0x400) = c := by
      unfold pair
      exact hnumber _ (by omega)
    rw [List.flatMap_cons, List.flatMap_singleton, List.append_assoc, output_unit (by omega)]
    dsimp only
    unfold begin
    rw [if_pos hlead, List.nil_append, output_unit (by omega)]
    dsimp only
    rw [if_pos htrail, hpair]

theorem output_encode : ∀ cs : List Char,
    (decoder bigFirst).output ⟨none, none⟩ (encode bigFirst cs) = cs.map some
  | [] => rfl
  | c :: cs => by
    unfold encode
    rw [List.flatMap_cons, output_encodeChar]
    exact congrArg (some c :: ·) (output_encode cs)

theorem replaceMissing_decode_encode (cs : List Char) :
    replaceMissing (decode bigFirst (encode bigFirst cs)) = cs := by
  unfold decode replaceMissing
  rw [Text.Transducer.run_eq_output]
  rw [show (decoder bigFirst).start = ⟨none, none⟩ from rfl, output_encode, List.map_map]
  exact List.map_id cs

end Utf16

/-! ### The code page -/

namespace Windows1252

theorem charOf_ascii {byte : UInt8} (h : byte.toNat < 0x80) :
    charOf byte = Char.ofNat byte.toNat := by
  unfold charOf
  dsimp only
  rw [if_pos h]

/-- The number of the character of a byte. -/
def number (n : Nat) : Nat := if n < 0x80 then n else upper.getD (n - 0x80) n

theorem upper_bounds : ∀ n ∈ upper, 0x80 ≤ n ∧ (n < 0xA0 ∨ 0xFF < n) ∧ n < 0xD800 := by decide

theorem upper_nodup : upper.Nodup := by decide

/-- The bytes from 80 to 9F have special characters, and all others the character of their number.
-/
theorem number_cases {n : Nat} (h : n < 0x100) :
    (0x80 ≤ n ∧ n < 0xA0 ∧ ∃ h : n - 0x80 < upper.length, number n = upper[n - 0x80]) ∨
      (n < 0x80 ∨ 0xA0 ≤ n) ∧ number n = n := by
  have hlength : upper.length = 0x20 := rfl
  unfold number
  split
  · next hsmall => exact .inr ⟨.inl hsmall, rfl⟩
  · next hgreat =>
    by_cases hspecial : n < 0xA0
    · have hn : n - 0x80 < upper.length := by omega
      exact .inl ⟨by omega, hspecial, hn, List.getD_eq_getElem _ _ hn⟩
    · exact .inr ⟨.inr (by omega), List.getD_eq_default _ _ (by omega)⟩

theorem toNat_charOf (byte : UInt8) : (charOf byte).toNat = number byte.toNat := by
  have hlt : byte.toNat < 0x100 := byte.toNat_lt
  have hchar : charOf byte = Char.ofNat (number byte.toNat) := by
    unfold charOf number
    dsimp only
    split <;> rfl
  have hbound : number byte.toNat < 0xD800 := by
    rcases number_cases hlt with ⟨-, -, hn, hnumber⟩ | ⟨-, hnumber⟩
    · rw [hnumber]
      exact (upper_bounds _ (List.getElem_mem hn)).2.2
    · omega
  rw [hchar, toNat_charOfNat (.inl hbound)]

theorem number_injective {m n : Nat} (hm : m < 0x100) (hn : n < 0x100) (h : number m = number n) :
    m = n := by
  rcases number_cases hm with ⟨hm₁, hm₂, hm₃, hmn⟩ | ⟨hm₁, hmn⟩ <;>
    rcases number_cases hn with ⟨hn₁, hn₂, hn₃, hnn⟩ | ⟨hn₁, hnn⟩
  · rw [hmn, hnn, upper_nodup.getElem_inj_iff] at h
    omega
  · have hupper := upper_bounds _ (List.getElem_mem hm₃)
    omega
  · have hupper := upper_bounds _ (List.getElem_mem hn₃)
    omega
  · omega

/-- **No two bytes** have the same character. -/
theorem charOf_injective : Function.Injective charOf := by
  intro a b h
  have hnumber := congrArg Char.toNat h
  rw [toNat_charOf, toNat_charOf] at hnumber
  exact UInt8.toNat_inj.mp (number_injective a.toNat_lt b.toNat_lt hnumber)

end Windows1252

/-! ### Source files -/

/-- The mark of UTF-8. -/
def utf8Mark : Bytes := [0xEF, 0xBB, 0xBF]

/-- The mark of UTF-16 with the lower byte first. -/
def littleMark : Bytes := [0xFF, 0xFE]

/-- The mark of UTF-16 with the upper byte first. -/
def bigMark : Bytes := [0xFE, 0xFF]

/-- The character that the marks stand for. -/
def markChar : Char := '\ufeff'

/-- Some bytes that begin with no mark. -/
structure Unmarked (bytes : Bytes) : Prop where
  utf8 : ¬utf8Mark <+: bytes
  little : ¬littleMark <+: bytes
  big : ¬bigMark <+: bytes

/-- Some bytes are neither marked nor well-formed UTF-8. -/
structure IsLegacy (bytes : Bytes) : Prop where
  unmarked : Unmarked bytes
  malformed : ∀ s : String, bytes ≠ ofText s

variable {bytes : Bytes}

theorem forall_ne_ofText_iff : (∀ s : String, bytes ≠ ofText s) ↔ Utf8.decode? bytes = none := by
  rw [Option.eq_none_iff_forall_ne_some]
  constructor
  · intro h cs hdecode
    refine h (String.ofList cs) ?_
    unfold ofText
    rw [String.toList_ofList]
    exact Utf8.decode?_eq_some_iff.mp hdecode
  · intro h s hs
    exact h s.toList (Utf8.decode?_eq_some_iff.mpr hs)

instance (bytes : Bytes) : Decidable (Unmarked bytes) :=
  decidable_of_iff (¬utf8Mark <+: bytes ∧ ¬littleMark <+: bytes ∧ ¬bigMark <+: bytes)
    ⟨fun h => ⟨h.1, h.2.1, h.2.2⟩, fun h => ⟨h.utf8, h.little, h.big⟩⟩

instance (bytes : Bytes) : Decidable (IsLegacy bytes) :=
  decidable_of_iff (Unmarked bytes ∧ Utf8.decode? bytes = none)
    ⟨fun h => ⟨h.1, forall_ne_ofText_iff.mpr h.2⟩,
      fun h => ⟨h.unmarked, forall_ne_ofText_iff.mp h.malformed⟩⟩

theorem decodeChars_of_unmarked (h : Unmarked bytes) :
    decodeChars bytes = (Utf8.decode? bytes).getD (Windows1252.decode bytes) := by
  unfold decodeChars
  split
  · exact absurd ⟨_, rfl⟩ h.utf8
  · exact absurd ⟨_, rfl⟩ h.little
  · exact absurd ⟨_, rfl⟩ h.big
  · split <;> next hdecode => rw [hdecode]; rfl

/-- A text in UTF-8 begins with no mark of UTF-16, and with that of UTF-8 only if its first
character is the mark. -/
theorem unmarked_encode {cs : List Char} (h : cs.head? ≠ some markChar) :
    Unmarked (Utf8.encode cs) := by
  have houtput := Utf8.output_encode cs
  refine ⟨?_, ?_, ?_⟩ <;> rintro ⟨rest, hrest⟩ <;> rw [← hrest] at houtput
  · have hmark : Utf8.decoder.output none (utf8Mark ++ rest) =
        some markChar :: Utf8.decoder.output none rest := rfl
    rw [hmark] at houtput
    cases cs with
    | nil => cases houtput
    | cons c cs => exact h (List.cons.inj houtput).1.symm
  · cases cs <;> cases houtput
  · cases cs <;> cases houtput

theorem decodeChars_encode {cs : List Char} (h : cs.head? ≠ some markChar) :
    decodeChars (Utf8.encode cs) = cs := by
  rw [decodeChars_of_unmarked (unmarked_encode h), Utf8.decode?_encode]
  rfl

theorem decodeChars_utf8Mark (cs : List Char) : decodeChars (utf8Mark ++ Utf8.encode cs) = cs :=
  Utf8.decodeLossy_encode cs

theorem decodeChars_markChar (cs : List Char) :
    decodeChars (Utf8.encode (markChar :: cs)) = cs := decodeChars_utf8Mark cs

/-- Bytes that are neither marked nor well formed are read by the code page. -/
theorem IsLegacy.decodeChars_eq (h : IsLegacy bytes) :
    decodeChars bytes = bytes.map Windows1252.charOf := by
  rw [decodeChars_of_unmarked h.unmarked, forall_ne_ofText_iff.mp h.malformed]
  rfl

theorem toList_decodeSource (bytes : Bytes) : (decodeSource bytes).toList = decodeChars bytes :=
  String.toList_ofList

/-- **Decoding undoes encoding.** A text is read back from its UTF-8 bytes, but for a mark that it
begins with; from its UTF-8 bytes behind the mark, and from its code units in either order behind
the mark of the order, it is read back whole. Bytes without a mark that are not well-formed UTF-8
are read as one character each: those of ASCII as themselves, and different bytes as different
texts. -/
theorem decoding_undoes_encoding :
    (∀ s : String, decodeSource (ofText s) =
      if s.toList.head? = some markChar then String.ofList s.toList.tail else s) ∧
    (∀ s : String, decodeSource (utf8Mark ++ ofText s) = s) ∧
    (∀ s : String, decodeSource (littleMark ++ Utf16.encode false s.toList) = s) ∧
    (∀ s : String, decodeSource (bigMark ++ Utf16.encode true s.toList) = s) ∧
    (∀ bytes, IsLegacy bytes →
      (decodeSource bytes).toList.length = bytes.length ∧
      ∀ (n : Nat) (byte : UInt8), bytes[n]? = some byte → byte.toNat < 0x80 →
        (decodeSource bytes).toList[n]? = some (Char.ofNat byte.toNat)) ∧
    ∀ bytes other, IsLegacy bytes → IsLegacy other → decodeSource bytes = decodeSource other →
      bytes = other := by
  have htext : ∀ {bytes : Bytes} {s : String}, decodeChars bytes = s.toList →
      decodeSource bytes = s := by
    intro bytes s h
    unfold decodeSource
    rw [h, String.ofList_toList]
  refine ⟨fun s => ?_, fun s => htext (decodeChars_utf8Mark _),
    fun s => htext (Utf16.replaceMissing_decode_encode _),
    fun s => htext (Utf16.replaceMissing_decode_encode _), fun bytes h => ⟨?_, ?_⟩,
    fun bytes other h h' heq => ?_⟩
  · split
    · next hmark =>
      apply htext
      rw [String.toList_ofList]
      obtain ⟨cs, hcs⟩ := List.head?_eq_some_iff.mp hmark
      unfold ofText
      rw [hcs]
      exact decodeChars_markChar cs
    · next hmark => exact htext (decodeChars_encode hmark)
  · rw [toList_decodeSource, h.decodeChars_eq, List.length_map]
  · intro n byte hbyte hascii
    rw [toList_decodeSource, h.decodeChars_eq, List.getElem?_map, hbyte, Option.map_some,
      Windows1252.charOf_ascii hascii]
  · have hchars := congrArg String.toList heq
    rw [toList_decodeSource, toList_decodeSource, h.decodeChars_eq, h'.decodeChars_eq] at hchars
    exact Windows1252.charOf_injective.list_map hchars

/-- **A word in the code page** keeps its letters, its accented letter is one character, and another
accent makes another text: the last byte begins a character of UTF-8 that is not completed. -/
theorem accented_word_is_legacy :
    IsLegacy [0x63, 0x61, 0x66, 0xE9] ∧ IsLegacy [0x63, 0x61, 0x66, 0xE8] ∧
    (decodeSource [0x63, 0x61, 0x66, 0xE9]).toList.length = 4 ∧
    (decodeSource [0x63, 0x61, 0x66, 0xE9]).toList[2]? = some 'f' ∧
    decodeSource [0x63, 0x61, 0x66, 0xE9] ≠ decodeSource [0x63, 0x61, 0x66, 0xE8] := by
  obtain ⟨-, -, -, -, hlegacy, hinjective⟩ := decoding_undoes_encoding
  have hacute : IsLegacy [0x63, 0x61, 0x66, 0xE9] := by decide
  have hgrave : IsLegacy [0x63, 0x61, 0x66, 0xE8] := by decide
  obtain ⟨hlength, hascii⟩ := hlegacy _ hacute
  refine ⟨hacute, hgrave, hlength, hascii 2 0x66 rfl (by decide), fun h => ?_⟩
  exact absurd (hinjective _ _ hacute hgrave h) (by decide)

end ProofProse.Encoding
