import Mathlib.Data.List.Forall2
import AnonymousTypes.Proofs.ByteOrder

/-!
# What bytes spell a text

A byte string spells at most one text, and a text has one spelling: reading and writing are
inverse to each other (`Text.Utf8.decode_eq_ok_iff`).

Both halves go character by character. A character is written as a leading byte, which announces
the ranges of the bytes that follow it, and bytes in these ranges (`Text.Utf8.exists_lead`); and a
leading byte with bytes in the ranges it announces is how the character they carry is written
(`Text.Utf8.utf8EncodeChar_payload`), since the ranges rule out overlong spellings, surrogates and
numbers above the last code point.
-/

namespace AnonymousTypes

namespace Text.Utf8

/-- The byte lies in the range. -/
def InRange (range : Nat × Nat) (b : UInt8) : Prop := range.1 ≤ b.toNat ∧ b.toNat ≤ range.2

/-- The payload of a character, when some of its bytes have been taken and others follow. -/
def payload (taken : Nat) (bytes : List UInt8) : Nat :=
  bytes.foldl (fun payload b => payload * 64 + (b.toNat - 0x80)) taken

/-- Bytes that lie in the ranges that are still owed complete the character. -/
theorem decodeFrom_pending {ranges : List (Nat × Nat)} {bytes : List UInt8}
    (h : List.Forall₂ InRange ranges bytes) (hne : ranges ≠ []) (start taken sofar : Nat)
    (rest : List UInt8) :
    decodeFrom ⟨start, taken, sofar, ranges⟩ (bytes ++ rest) =
      (decodeFrom (.between (start + (taken + bytes.length))) rest).map
        (Char.ofNat (payload sofar bytes) :: ·) := by
  induction h generalizing taken sofar with
  | nil => exact absurd rfl hne
  | @cons range b ranges bytes hb hbs ih =>
    rw [List.cons_append, decodeFrom]
    simp only [InRange] at hb
    simp only [hb, and_self, if_true]
    cases hbs with
    | nil => rfl
    | cons hb' hbs' =>
      simp only [List.isEmpty_cons, Bool.false_eq_true, if_false]
      rw [ih (List.cons_ne_nil _ _)]
      simp only [payload, List.foldl_cons, List.length_cons, Nat.add_assoc, Nat.add_comm 1]

theorem decodeFrom_lead {b : UInt8} {sofar : Nat} {range : Nat × Nat} {ranges : List (Nat × Nat)}
    (hlead : Lead.ofByte? b.toNat = some ⟨sofar, range :: ranges⟩) (index : Nat)
    (rest : List UInt8) : decodeFrom (.between index) (b :: rest) =
      decodeFrom ⟨index, 1, sofar, range :: ranges⟩ rest := by
  rw [decodeFrom]
  simp only [Reading.between, hlead]

/-! The leading byte of a longer character, by the number of bytes. The byte after it must lie
in the range that the leading byte announces. -/

theorem lead_two {v : Nat} (hlow : 0x80 ≤ v) (hhigh : v < 0x800) :
    Lead.ofByte? (0xC0 + v / 0x40) = some ⟨v / 0x40, [continuation]⟩ := by
  rw [Lead.ofByte?, if_neg (by omega), if_neg (by omega), if_pos (by omega),
    Nat.add_sub_cancel_left]

theorem lead_three {v : Nat} (hlow : 0x800 ≤ v) (hhigh : v < 0x10000)
    (hv : v < 0xD800 ∨ 0xDFFF < v) :
    ∃ low high, Lead.ofByte? (0xE0 + v / 0x1000) =
        some ⟨v / 0x1000, [(low, high), continuation]⟩ ∧
      low ≤ 0x80 + v / 0x40 % 0x40 ∧ 0x80 + v / 0x40 % 0x40 ≤ high := by
  rw [Lead.ofByte?, if_neg (by omega), if_neg (by omega), if_neg (by omega)]
  by_cases hfirst : v / 0x1000 = 0
  · rw [if_pos (by omega), hfirst]
    exact ⟨_, _, rfl, by omega, by omega⟩
  rw [if_neg (by omega)]
  by_cases hsurrogates : v / 0x1000 = 0xD
  · rw [if_pos (by omega), hsurrogates]
    exact ⟨_, _, rfl, by omega, by omega⟩
  rw [if_neg (by omega), if_pos (by omega), Nat.add_sub_cancel_left]
  exact ⟨_, _, rfl, by omega, by omega⟩

theorem lead_four {v : Nat} (hlow : 0x10000 ≤ v) (hhigh : v < 0x110000) :
    ∃ low high, Lead.ofByte? (0xF0 + v / 0x40000) =
        some ⟨v / 0x40000, [(low, high), continuation, continuation]⟩ ∧
      low ≤ 0x80 + v / 0x1000 % 0x40 ∧ 0x80 + v / 0x1000 % 0x40 ≤ high := by
  rw [Lead.ofByte?, if_neg (by omega), if_neg (by omega), if_neg (by omega), if_neg (by omega),
    if_neg (by omega), if_neg (by omega)]
  by_cases hfirst : v / 0x40000 = 0
  · rw [if_pos (by omega), hfirst]
    exact ⟨_, _, rfl, by omega, by omega⟩
  rw [if_neg (by omega)]
  by_cases hlast : v / 0x40000 = 4
  · rw [if_neg (by omega), if_pos (by omega), hlast]
    exact ⟨_, _, rfl, by omega, by omega⟩
  rw [if_pos (by omega), Nat.add_sub_cancel_left]
  exact ⟨_, _, rfl, by omega, by omega⟩

/-- A leading byte announces the bytes that follow it. -/
theorem exists_lead {v : Nat} (hv : v < 0xD800 ∨ 0xDFFF < v ∧ v < 0x110000) (hlarge : 0x80 ≤ v)
    {bytes : List UInt8} (hbytes : bytes.map UInt8.toNat = codes v) :
    ∃ b more sofar range ranges, bytes = b :: more ∧
      Lead.ofByte? b.toNat = some ⟨sofar, range :: ranges⟩ ∧
      List.Forall₂ InRange (range :: ranges) more ∧ payload sofar more = v := by
  -- two, three or four bytes, by the size of the code point
  rw [codes, if_neg (by omega)] at hbytes
  split at hbytes
  · obtain ⟨b, _, rfl, hb, hbytes⟩ := List.map_eq_cons_iff.1 hbytes
    obtain ⟨c, _, rfl, hc, hbytes⟩ := List.map_eq_cons_iff.1 hbytes
    obtain rfl := List.map_eq_nil_iff.1 hbytes
    refine ⟨b, [c], _, _, _, rfl, hb ▸ lead_two hlarge ‹_›, .cons ?_ .nil, ?_⟩
    · rw [InRange, hc, continuation]
      omega
    · simp only [payload, List.foldl_cons, List.foldl_nil, hc]
      omega
  split at hbytes
  · obtain ⟨b, _, rfl, hb, hbytes⟩ := List.map_eq_cons_iff.1 hbytes
    obtain ⟨c, _, rfl, hc, hbytes⟩ := List.map_eq_cons_iff.1 hbytes
    obtain ⟨d, _, rfl, hd, hbytes⟩ := List.map_eq_cons_iff.1 hbytes
    obtain rfl := List.map_eq_nil_iff.1 hbytes
    obtain ⟨low, high, hlead, hle, hge⟩ := lead_three (v := v) (by omega) ‹_› (by omega)
    refine ⟨b, [c, d], _, _, _, rfl, hb ▸ hlead, .cons ?_ (.cons ?_ .nil), ?_⟩
    · rw [InRange, hc]
      exact ⟨hle, hge⟩
    · rw [InRange, hd, continuation]
      omega
    · simp only [payload, List.foldl_cons, List.foldl_nil, hc, hd]
      omega
  · obtain ⟨b, _, rfl, hb, hbytes⟩ := List.map_eq_cons_iff.1 hbytes
    obtain ⟨c, _, rfl, hc, hbytes⟩ := List.map_eq_cons_iff.1 hbytes
    obtain ⟨d, _, rfl, hd, hbytes⟩ := List.map_eq_cons_iff.1 hbytes
    obtain ⟨e, _, rfl, he, hbytes⟩ := List.map_eq_cons_iff.1 hbytes
    obtain rfl := List.map_eq_nil_iff.1 hbytes
    obtain ⟨low, high, hlead, hle, hge⟩ := lead_four (v := v) (by omega) (by omega)
    refine ⟨b, [c, d, e], _, _, _, rfl, hb ▸ hlead, .cons ?_ (.cons ?_ (.cons ?_ .nil)), ?_⟩
    · rw [InRange, hc]
      exact ⟨hle, hge⟩
    · rw [InRange, hd, continuation]
      omega
    · rw [InRange, he, continuation]
      omega
    · simp only [payload, List.foldl_cons, List.foldl_nil, hc, hd, he]
      omega

/-- A character is read back from its bytes, and reading goes on behind them. -/
theorem decodeFrom_utf8EncodeChar (c : Char) (index : Nat) (rest : List UInt8) :
    decodeFrom (.between index) (String.utf8EncodeChar c ++ rest) =
      (decodeFrom (.between (index + (String.utf8EncodeChar c).length)) rest).map (c :: ·) := by
  have hv : c.toNat < 0xD800 ∨ 0xDFFF < c.toNat ∧ c.toNat < 0x110000 := c.valid
  have hbytes : (String.utf8EncodeChar c).map UInt8.toNat = codes c.toNat :=
    map_toNat_utf8EncodeChar c
  by_cases hsmall : c.toNat < 0x80
  · rw [codes, if_pos hsmall] at hbytes
    obtain ⟨b, _, heq, hb, hnil⟩ := List.map_eq_cons_iff.1 hbytes
    obtain rfl := List.map_eq_nil_iff.1 hnil
    have hlead : Lead.ofByte? b.toNat = some ⟨c.toNat, []⟩ := by
      rw [Lead.ofByte?, hb, if_pos hsmall]
    simp only [heq, List.cons_append, List.nil_append, decodeFrom, Reading.between, hlead,
      List.length_singleton, Char.ofNat_toNat]
  · obtain ⟨b, more, sofar, range, ranges, heq, hlead, hranges, hpayload⟩ :=
      exists_lead hv (by omega) hbytes
    rw [heq, List.cons_append, decodeFrom_lead hlead,
      decodeFrom_pending hranges (List.cons_ne_nil _ _), hpayload, List.length_cons, Nat.add_comm 1,
      Char.ofNat_toNat]

/-- **A text is read back** from its bytes, by induction on its characters. -/
theorem decode_encode (text : String) : decode (encode text) = .ok text := by
  have hchars : ∀ (cs : List Char) (index : Nat),
      decodeFrom (.between index) (cs.flatMap String.utf8EncodeChar) = .ok cs := by
    intro cs
    induction cs with
    | nil => exact fun _ => rfl
    | cons c cs ih =>
      intro index
      rw [List.flatMap_cons, decodeFrom_utf8EncodeChar, ih]
      rfl
  rw [decode, encode, hchars, Except.map, String.ofList_toList]

/-! ## Only texts are read

A leading byte announces one, two or three bytes. In each case the ranges leave just the bytes
that a character is written in. -/

theorem codes_two {b c : Nat} (hb : 0xC2 ≤ b ∧ b < 0xE0) (hc : 0x80 ≤ c ∧ c ≤ 0xBF) :
    codes ((b - 0xC0) * 64 + (c - 0x80)) = [b, c] := by
  rw [codes, if_neg (by omega), if_pos (by omega)]
  simp only [List.cons.injEq, and_true]
  omega

theorem codes_three {b c d : Nat} (hb : 0xE0 ≤ b ∧ b < 0xF0) (hc : 0x80 ≤ c ∧ c ≤ 0xBF)
    (hd : 0x80 ≤ d ∧ d ≤ 0xBF) (hlow : b = 0xE0 → 0xA0 ≤ c) :
    codes (((b - 0xE0) * 64 + (c - 0x80)) * 64 + (d - 0x80)) = [b, c, d] := by
  rw [codes, if_neg (by omega), if_neg (by omega), if_pos (by omega)]
  simp only [List.cons.injEq, and_true]
  omega

theorem codes_four {b c d e : Nat} (hb : 0xF0 ≤ b) (hc : 0x80 ≤ c ∧ c ≤ 0xBF)
    (hd : 0x80 ≤ d ∧ d ≤ 0xBF) (he : 0x80 ≤ e ∧ e ≤ 0xBF) (hlow : b = 0xF0 → 0x90 ≤ c) :
    codes ((((b - 0xF0) * 64 + (c - 0x80)) * 64 + (d - 0x80)) * 64 + (e - 0x80)) =
      [b, c, d, e] := by
  rw [codes, if_neg (by omega), if_neg (by omega), if_neg (by omega)]
  simp only [List.cons.injEq, and_true]
  omega

theorem lead_inj {a b : Nat} {ranges ranges' : List (Nat × Nat)}
    (h : some (Lead.mk a ranges) = some ⟨b, ranges'⟩) : b = a ∧ ranges' = ranges := by
  rw [Option.some.injEq, Lead.mk.injEq] at h
  exact ⟨h.1.symm, h.2.symm⟩

/-- What a leading byte can announce. The first range keeps out overlong spellings after `E0` and
`F0`, surrogates after `ED`, and numbers above the last code point after `F4`. -/
theorem lead_cases {b sofar : Nat} {ranges : List (Nat × Nat)}
    (h : Lead.ofByte? b = some ⟨sofar, ranges⟩) :
    (b < 0x80 ∧ sofar = b ∧ ranges = []) ∨
    ((0xC2 ≤ b ∧ b < 0xE0) ∧ sofar = b - 0xC0 ∧ ranges = [continuation]) ∨
    (∃ low high, (0xE0 ≤ b ∧ b < 0xF0) ∧ sofar = b - 0xE0 ∧
      ranges = [(low, high), continuation] ∧ 0x80 ≤ low ∧ high ≤ 0xBF ∧
      (b = 0xE0 → 0xA0 ≤ low) ∧ (b = 0xED → high ≤ 0x9F)) ∨
    (∃ low high, (0xF0 ≤ b ∧ b < 0xF5) ∧ sofar = b - 0xF0 ∧
      ranges = [(low, high), continuation, continuation] ∧ 0x80 ≤ low ∧ high ≤ 0xBF ∧
      (b = 0xF0 → 0x90 ≤ low) ∧ (b = 0xF4 → high ≤ 0x8F)) := by
  rw [Lead.ofByte?] at h
  split at h
  · obtain ⟨hsofar, rfl⟩ := lead_inj h
    exact .inl ⟨‹_›, hsofar, rfl⟩
  split at h
  · cases h
  split at h
  · obtain ⟨hsofar, rfl⟩ := lead_inj h
    exact .inr (.inl ⟨⟨by omega, by omega⟩, hsofar, rfl⟩)
  -- three bytes: the two narrow ranges come first
  split at h
  · obtain ⟨hsofar, rfl⟩ := lead_inj h
    refine .inr (.inr (.inl ⟨_, _, ?_, ?_, rfl, ?_⟩)) <;> omega
  split at h
  · obtain ⟨hsofar, rfl⟩ := lead_inj h
    refine .inr (.inr (.inl ⟨_, _, ?_, ?_, rfl, ?_⟩)) <;> omega
  split at h
  · obtain ⟨hsofar, rfl⟩ := lead_inj h
    refine .inr (.inr (.inl ⟨_, _, ?_, hsofar, rfl, ?_⟩)) <;> omega
  -- and so for four bytes
  split at h
  · obtain ⟨hsofar, rfl⟩ := lead_inj h
    refine .inr (.inr (.inr ⟨_, _, ?_, ?_, rfl, ?_⟩)) <;> omega
  split at h
  · obtain ⟨hsofar, rfl⟩ := lead_inj h
    refine .inr (.inr (.inr ⟨_, _, ?_, hsofar, rfl, ?_⟩)) <;> omega
  split at h
  · obtain ⟨hsofar, rfl⟩ := lead_inj h
    refine .inr (.inr (.inr ⟨_, _, ?_, ?_, rfl, ?_⟩)) <;> omega
  · cases h

/-- The number lies in the ranges of code points. -/
theorem codes_payload {b : UInt8} {sofar : Nat} {ranges : List (Nat × Nat)} {more : List UInt8}
    (hlead : Lead.ofByte? b.toNat = some ⟨sofar, ranges⟩)
    (hmore : List.Forall₂ InRange ranges more) :
    (payload sofar more).isValidChar ∧
      codes (payload sofar more) = (b :: more).map UInt8.toNat := by
  rcases lead_cases hlead with ⟨hb, hsofar, rfl⟩ | ⟨hb, hsofar, rfl⟩ |
    ⟨low, high, hb, hsofar, rfl, hlow, hhigh, hfirst, hlast⟩ |
    ⟨low, high, hb, hsofar, rfl, hlow, hhigh, hfirst, hlast⟩
  · rcases hmore with _ | _
    rw [payload, List.foldl_nil, hsofar, codes, if_pos hb]
    exact ⟨.inl (by omega), rfl⟩
  · rcases hmore with _ | ⟨hc, _ | _⟩
    simp only [payload, List.foldl_cons, List.foldl_nil, InRange, continuation, hsofar] at hc ⊢
    rw [codes_two hb hc]
    exact ⟨.inl (by omega), rfl⟩
  · rcases hmore with _ | ⟨hc, _ | ⟨hd, _ | _⟩⟩
    simp only [payload, List.foldl_cons, List.foldl_nil, InRange, continuation, hsofar] at hc hd ⊢
    rw [codes_three hb (by omega) hd (by omega), Nat.isValidChar]
    exact ⟨by omega, rfl⟩
  · rcases hmore with _ | ⟨hc, _ | ⟨hd, _ | ⟨he, _ | _⟩⟩⟩
    simp only [payload, List.foldl_cons, List.foldl_nil, InRange, continuation, hsofar]
      at hc hd he ⊢
    rw [codes_four hb.1 (by omega) hd he (by omega), Nat.isValidChar]
    exact ⟨by omega, rfl⟩

/-- A leading byte and bytes in the ranges it announces are the bytes of a character. -/
theorem utf8EncodeChar_payload {b : UInt8} {sofar : Nat} {ranges : List (Nat × Nat)}
    {more : List UInt8} (hlead : Lead.ofByte? b.toNat = some ⟨sofar, ranges⟩)
    (hmore : List.Forall₂ InRange ranges more) :
    String.utf8EncodeChar (Char.ofNat (payload sofar more)) = b :: more := by
  obtain ⟨hvalid, hcodes⟩ := codes_payload hlead hmore
  have hchar : (Char.ofNat (payload sofar more)).val.toNat = payload sofar more := by
    rw [Char.ofNat, dif_pos hvalid]
    rfl
  have hmap := map_toNat_utf8EncodeChar (Char.ofNat (payload sofar more))
  rw [hchar, hcodes] at hmap
  exact List.map_injective_iff.2 (fun _ _ => UInt8.toNat_inj.1) hmap

/-- A character is only completed by bytes in the ranges that are owed. -/
theorem exists_of_decodeFrom_pending {ranges : List (Nat × Nat)} (hne : ranges ≠ [])
    {start taken sofar : Nat} {bytes : List UInt8} {cs : List Char}
    (h : decodeFrom ⟨start, taken, sofar, ranges⟩ bytes = .ok cs) :
    ∃ more rest index tail, bytes = more ++ rest ∧ List.Forall₂ InRange ranges more ∧
      decodeFrom (.between index) rest = .ok tail ∧
      cs = Char.ofNat (payload sofar more) :: tail := by
  induction ranges generalizing taken sofar bytes with
  | nil => exact absurd rfl hne
  | cons range ranges ih =>
    rcases bytes with _ | ⟨b, bytes⟩
    · cases h
    rw [decodeFrom] at h
    dsimp only at h
    split at h
    · rename_i hb
      rcases ranges with _ | ⟨next, ranges⟩
      · obtain ⟨tail, hrest, rfl⟩ := map_eq_ok_iff.1 h
        exact ⟨[b], bytes, _, tail, rfl, .cons hb .nil, hrest, rfl⟩
      · obtain ⟨more, rest, index, tail, rfl, hmore, hrest, rfl⟩ :=
          ih (List.cons_ne_nil _ _) h
        refine ⟨b :: more, rest, index, tail, rfl, .cons hb hmore, hrest, ?_⟩
        rw [payload, payload, List.foldl_cons]
    · cases h

/-- Between characters, a leading byte and the bytes that it announces are read. -/
theorem exists_of_decodeFrom_between {index : Nat} {b : UInt8} {bytes : List UInt8}
    {cs : List Char} (h : decodeFrom (.between index) (b :: bytes) = .ok cs) :
    ∃ sofar ranges more rest index' tail, Lead.ofByte? b.toNat = some ⟨sofar, ranges⟩ ∧
      bytes = more ++ rest ∧ List.Forall₂ InRange ranges more ∧
      decodeFrom (.between index') rest = .ok tail ∧
      cs = Char.ofNat (payload sofar more) :: tail := by
  rcases hlead : Lead.ofByte? b.toNat with _ | ⟨sofar, _ | ⟨range, ranges⟩⟩
  · rw [decodeFrom] at h
    simp only [Reading.between, hlead] at h
    cases h
  · rw [decodeFrom] at h
    simp only [Reading.between, hlead] at h
    obtain ⟨tail, hrest, rfl⟩ := map_eq_ok_iff.1 h
    exact ⟨sofar, [], [], bytes, _, tail, rfl, rfl, .nil, hrest, rfl⟩
  · rw [decodeFrom_lead hlead] at h
    obtain ⟨more, rest, index', tail, hbytes, hmore, hrest, hcs⟩ :=
      exists_of_decodeFrom_pending (List.cons_ne_nil _ _) h
    exact ⟨sofar, _, more, rest, index', tail, rfl, hbytes, hmore, hrest, hcs⟩

/-- **Only the bytes of a text** are read as it. -/
theorem encode_of_decode {bytes : List UInt8} {text : String} (h : decode bytes = .ok text) :
    encode text = bytes := by
  have hchars : ∀ (bytes : List UInt8) (index : Nat) (cs : List Char),
      decodeFrom (.between index) bytes = .ok cs → cs.flatMap String.utf8EncodeChar = bytes := by
    -- by induction on the number of bytes, as a character takes up some of them
    intro bytes
    induction hlength : bytes.length using Nat.strongRecOn generalizing bytes with
    | ind n ih =>
      intro index cs hread
      rcases bytes with _ | ⟨b, bytes⟩
      · cases hread
        rfl
      · obtain ⟨sofar, ranges, more, rest, index', tail, hlead, rfl, hmore, hrest, rfl⟩ :=
          exists_of_decodeFrom_between hread
        have hless : rest.length < n := by
          rw [← hlength, List.length_cons, List.length_append]
          omega
        rw [List.flatMap_cons, utf8EncodeChar_payload hlead hmore,
          ih _ hless rest rfl index' tail hrest]
        rfl
  obtain ⟨cs, hread, rfl⟩ := map_eq_ok_iff.1 h
  rw [encode, String.toList_ofList]
  exact hchars bytes 0 cs hread

/-- **Reading and writing are inverse to each other.** So no text has two encodings that are
read, and what is read is written back byte by byte. -/
theorem decode_eq_ok_iff {bytes : List UInt8} {text : String} :
    decode bytes = .ok text ↔ encode text = bytes :=
  ⟨encode_of_decode, fun h => h ▸ decode_encode text⟩

/-- Different texts have different bytes. -/
theorem encode_inj {a b : String} : encode a = encode b ↔ a = b := by
  refine ⟨fun h => ?_, congrArg encode⟩
  exact Except.ok.inj ((decode_encode a).symm.trans (decode_eq_ok_iff.2 h.symm))

end Text.Utf8

end AnonymousTypes
