import ItemTable.Text.Base64

/-!
# Base64 is canonical

Four symbols stand for four numbers of six bits, which are three bytes. A last group of one or two
bytes leaves four or two bits unused, and the reader requires them to be zero. So every text that
can be read is the one text that is written for its bytes (`decode?_eq_some_iff`), and these texts
are described without the writer by `IsCanonical`.
-/
namespace ItemTable.Text.Base64

theorem sextet?_symbol : ∀ n < 64, sextet? (symbol n) = some n := by decide

theorem symbol_ne_pad : ∀ n < 64, symbol n ≠ '=' := by decide

/-- The symbols of the alphabet are the only characters that stand for a number. -/
theorem symbol_of_sextet? {c : Char} {n : Nat} (h : sextet? c = some n) :
    n < 64 ∧ symbol n = c := by
  have hback {k : Nat} (hk : c.toNat = k) : Char.ofNat k = c := by rw [← hk, Char.ofNat_toNat]
  unfold sextet? at h
  split at h
  · next hupper =>
    have hrange : 65 ≤ c.toNat ∧ c.toNat ≤ 90 := by
      obtain ⟨hlow, hhigh⟩ : c.val ≥ 'A'.val ∧ c.val ≤ 'Z'.val := of_decide_eq_true hupper
      exact ⟨UInt32.le_iff_toNat_le.1 hlow, UInt32.le_iff_toNat_le.1 hhigh⟩
    cases h
    rw [symbol, if_pos (by simp; omega)]
    exact ⟨by simp; omega, hback (by simp; omega)⟩
  · split at h
    · next hlower =>
      have hrange : 97 ≤ c.toNat ∧ c.toNat ≤ 122 := by
        obtain ⟨hlow, hhigh⟩ := Bool.and_eq_true_iff.1 hlower
        exact ⟨UInt32.le_iff_toNat_le.1 (of_decide_eq_true hlow),
          UInt32.le_iff_toNat_le.1 (of_decide_eq_true hhigh)⟩
      cases h
      rw [symbol, if_neg (by omega), if_pos (by simp; omega)]
      exact ⟨by simp; omega, hback (by simp; omega)⟩
    · split at h
      · next hdigit =>
        have hrange : 48 ≤ c.toNat ∧ c.toNat ≤ 57 := by
          simpa [Char.isDigit, UInt32.le_iff_toNat_le] using hdigit
        cases h
        rw [symbol, if_neg (by omega), if_neg (by omega), if_pos (by simp; omega)]
        exact ⟨by simp; omega, hback (by simp; omega)⟩
      · split at h
        · next hplus =>
          cases h
          exact ⟨by decide, hplus.symm⟩
        · split at h
          · next hslash =>
            cases h
            exact ⟨by decide, hslash.symm⟩
          · cases h

/-- The bytes of four numbers of six bits, each from the two numbers that it lies in. -/
def firstByte (w x : Nat) : UInt8 := UInt8.ofNat (w * 4 + x / 0x10)

def secondByte (x y : Nat) : UInt8 := UInt8.ofNat (x % 0x10 * 0x10 + y / 4)

def thirdByte (y z : Nat) : UInt8 := UInt8.ofNat (y % 4 * 0x40 + z)

section Sextets

variable {w x y z : Nat}

theorem toNat_firstByte (hw : w < 64) (hx : x < 64) : (firstByte w x).toNat = w * 4 + x / 0x10 :=
  UInt8.toNat_ofNat_of_lt' (by change _ < 256; omega)

theorem toNat_secondByte (hy : y < 64) : (secondByte x y).toNat = x % 0x10 * 0x10 + y / 4 :=
  UInt8.toNat_ofNat_of_lt' (by change _ < 256; omega)

theorem toNat_thirdByte (hz : z < 64) : (thirdByte y z).toNat = y % 4 * 0x40 + z :=
  UInt8.toNat_ofNat_of_lt' (by change _ < 256; omega)

theorem encode_group (hw : w < 64) (hx : x < 64) (hy : y < 64) (hz : z < 64) (rest : List UInt8) :
    encode (firstByte w x :: secondByte x y :: thirdByte y z :: rest) =
      symbol w :: symbol x :: symbol y :: symbol z :: encode rest := by
  simp only [encode]
  rw [toNat_firstByte hw hx, toNat_secondByte hy, toNat_thirdByte hz]
  generalize hn : (w * 4 + x / 0x10) * 0x10000 + (x % 0x10 * 0x10 + y / 4) * 0x100 +
    (y % 4 * 0x40 + z) = n
  have h₁ : n / 0x40000 = w := by omega
  have h₂ : n / 0x1000 % 64 = x := by omega
  have h₃ : n / 0x40 % 64 = y := by omega
  have h₄ : n % 64 = z := by omega
  rw [h₁, h₂, h₃, h₄]

theorem encode_two (hw : w < 64) (hx : x < 64) (hy : y < 64) (hspare : y % 4 = 0) :
    encode [firstByte w x, secondByte x y] = [symbol w, symbol x, symbol y, '='] := by
  simp only [encode]
  rw [toNat_firstByte hw hx, toNat_secondByte hy]
  have h₁ : ((w * 4 + x / 0x10) * 0x100 + (x % 0x10 * 0x10 + y / 4)) / 0x400 = w := by omega
  have h₂ : ((w * 4 + x / 0x10) * 0x100 + (x % 0x10 * 0x10 + y / 4)) / 0x10 % 64 = x := by omega
  have h₃ : ((w * 4 + x / 0x10) * 0x100 + (x % 0x10 * 0x10 + y / 4)) % 0x10 * 4 = y := by omega
  rw [h₁, h₂, h₃]

theorem encode_one (hw : w < 64) (hx : x < 64) (hspare : x % 0x10 = 0) :
    encode [firstByte w x] = [symbol w, symbol x, '=', '='] := by
  simp only [encode]
  rw [toNat_firstByte hw hx]
  have h₁ : (w * 4 + x / 0x10) / 4 = w := by omega
  have h₂ : (w * 4 + x / 0x10) % 4 * 0x10 = x := by omega
  rw [h₁, h₂]

/-- Three bytes make four numbers of six bits. -/
theorem exists_sextets (a b c : UInt8) : ∃ w < 64, ∃ x < 64, ∃ y < 64, ∃ z < 64,
    firstByte w x = a ∧ secondByte x y = b ∧ thirdByte y z = c := by
  have ha := a.toNat_lt
  have hb := b.toNat_lt
  have hc := c.toNat_lt
  refine ⟨a.toNat / 4, by omega, a.toNat % 4 * 0x10 + b.toNat / 0x10, by omega,
    b.toNat % 0x10 * 4 + c.toNat / 0x40, by omega, c.toNat % 0x40, by omega, ?_, ?_, ?_⟩
  · rw [← UInt8.toNat_inj, toNat_firstByte (by omega) (by omega)]
    omega
  · rw [← UInt8.toNat_inj, toNat_secondByte (by omega)]
    omega
  · rw [← UInt8.toNat_inj, toNat_thirdByte (by omega)]
    omega

/-- Two bytes leave two bits of the third number unused, and one leaves four of the second. -/
theorem exists_sextets_of_two (a b : UInt8) : ∃ w < 64, ∃ x < 64, ∃ y < 64,
    y % 4 = 0 ∧ firstByte w x = a ∧ secondByte x y = b := by
  obtain ⟨w, hw, x, hx, y, hy, z, hz, rfl, rfl, hzero⟩ := exists_sextets a b 0
  have hspare := toNat_thirdByte (y := y) hz
  rw [hzero, UInt8.toNat_zero] at hspare
  exact ⟨w, hw, x, hx, y, hy, by omega, rfl, rfl⟩

theorem exists_sextets_of_one (a : UInt8) :
    ∃ w < 64, ∃ x < 64, x % 0x10 = 0 ∧ firstByte w x = a := by
  obtain ⟨w, hw, x, hx, y, hy, -, rfl, hzero⟩ := exists_sextets_of_two a 0
  have hspare := toNat_secondByte (x := x) hy
  rw [hzero, UInt8.toNat_zero] at hspare
  exact ⟨w, hw, x, hx, by omega, rfl⟩

theorem lastGroup?_three (hw : w < 64) (hx : x < 64) (hy : y < 64) (hz : z < 64) :
    lastGroup? (symbol w) (symbol x) (symbol y) (symbol z) =
      some [firstByte w x, secondByte x y, thirdByte y z] := by
  simp only [lastGroup?, sextet?_symbol w hw, sextet?_symbol x hx, sextet?_symbol y hy,
    sextet?_symbol z hz, Option.bind_eq_bind, Option.bind_some, if_neg (symbol_ne_pad y hy),
    if_neg (symbol_ne_pad z hz)]
  rfl

theorem lastGroup?_two (hw : w < 64) (hx : x < 64) (hy : y < 64) :
    lastGroup? (symbol w) (symbol x) (symbol y) '=' =
      if y % 4 = 0 then some [firstByte w x, secondByte x y] else none := by
  simp only [lastGroup?, sextet?_symbol w hw, sextet?_symbol x hx, sextet?_symbol y hy,
    Option.bind_eq_bind, Option.bind_some, if_neg (symbol_ne_pad y hy), if_true]
  rfl

theorem lastGroup?_one (hw : w < 64) (hx : x < 64) (s : Char) :
    lastGroup? (symbol w) (symbol x) '=' s =
      if s = '=' ∧ x % 0x10 = 0 then some [firstByte w x] else none := by
  simp only [lastGroup?, sextet?_symbol w hw, sextet?_symbol x hx, Option.bind_eq_bind,
    Option.bind_some, if_true]
  rfl

end Sextets

theorem decode?_group {w x y z : Nat} (hw : w < 64) (hx : x < 64) (hy : y < 64) (hz : z < 64)
    (rest : List Char) :
    decode? (symbol w :: symbol x :: symbol y :: symbol z :: rest) =
      (decode? rest).map (firstByte w x :: secondByte x y :: thirdByte y z :: ·) := by
  cases rest with
  | nil => exact lastGroup?_three hw hx hy hz
  | cons c later =>
    simp only [decode?]
    rw [sextet?_symbol w hw, sextet?_symbol x hx, sextet?_symbol y hy, sextet?_symbol z hz]
    cases decode? (c :: later) <;> rfl

/-- The induction takes three bytes at a time; each ending has its own padding. -/
theorem decode?_encode (bytes : List UInt8) : decode? (encode bytes) = some bytes := by
  induction bytes using encode.induct with
  | case1 a b c rest ih =>
    obtain ⟨w, hw, x, hx, y, hy, z, hz, rfl, rfl, rfl⟩ := exists_sextets a b c
    rw [encode_group hw hx hy hz, decode?_group hw hx hy hz, ih]
    rfl
  | case2 a b =>
    obtain ⟨w, hw, x, hx, y, hy, hspare, rfl, rfl⟩ := exists_sextets_of_two a b
    rw [encode_two hw hx hy hspare]
    exact (lastGroup?_two hw hx hy).trans (if_pos hspare)
  | case3 a =>
    obtain ⟨w, hw, x, hx, hspare, rfl⟩ := exists_sextets_of_one a
    rw [encode_one hw hx hspare]
    exact (lastGroup?_one hw hx '=').trans (if_pos ⟨rfl, hspare⟩)
  | case4 => rfl

theorem eq_encode_of_lastGroup? {p q r s : Char} {bytes : List UInt8}
    (h : lastGroup? p q r s = some bytes) : [p, q, r, s] = encode bytes := by
  have hbytes := h
  simp only [lastGroup?, Option.bind_eq_bind, Option.bind_eq_some_iff] at h
  obtain ⟨w, hp, x, hq, h⟩ := h
  obtain ⟨hw, rfl⟩ := symbol_of_sextet? hp
  obtain ⟨hx, rfl⟩ := symbol_of_sextet? hq
  split at h
  · next hr =>
    subst hr
    rw [lastGroup?_one hw hx] at hbytes
    split at hbytes
    · next hend =>
      obtain ⟨rfl, hspare⟩ := hend
      cases hbytes
      exact (encode_one hw hx hspare).symm
    · cases hbytes
  · obtain ⟨y, hr, hend⟩ := Option.bind_eq_some_iff.1 h
    obtain ⟨hy, rfl⟩ := symbol_of_sextet? hr
    split at hend
    · next hs =>
      subst hs
      rw [lastGroup?_two hw hx hy] at hbytes
      split at hbytes
      · next hspare =>
        cases hbytes
        exact (encode_two hw hx hy hspare).symm
      · cases hbytes
    · obtain ⟨z, hs, -⟩ := Option.bind_eq_some_iff.1 hend
      obtain ⟨hz, rfl⟩ := symbol_of_sextet? hs
      rw [lastGroup?_three hw hx hy hz] at hbytes
      cases hbytes
      exact (encode_group hw hx hy hz []).symm

/-- A text that can be read is the one that is written for what is read. -/
theorem eq_encode_of_decode? {cs : List Char} {bytes : List UInt8} (h : decode? cs = some bytes) :
    cs = encode bytes := by
  induction cs using decode?.induct generalizing bytes with
  | case1 =>
    cases h
    rfl
  | case2 p q r s => exact eq_encode_of_lastGroup? h
  | case3 p q r s rest hmore ih =>
    rw [decode?] at h
    · simp only [Option.bind_eq_bind, Option.bind_eq_some_iff] at h
      obtain ⟨w, hp, x, hq, y, hr, z, hs, later, hlater, h⟩ := h
      obtain ⟨hw, rfl⟩ := symbol_of_sextet? hp
      obtain ⟨hx, rfl⟩ := symbol_of_sextet? hq
      obtain ⟨hy, rfl⟩ := symbol_of_sextet? hr
      obtain ⟨hz, rfl⟩ := symbol_of_sextet? hs
      cases h
      rw [ih hlater]
      exact (encode_group hw hx hy hz later).symm
    · exact hmore
  | case4 cs hnil hgroup hmore =>
    rw [decode?] at h
    · cases h
    all_goals assumption

theorem decode?_eq_some_iff {cs : List Char} {bytes : List UInt8} :
    decode? cs = some bytes ↔ cs = encode bytes :=
  ⟨eq_encode_of_decode?, fun h => h ▸ decode?_encode bytes⟩

/-- A text in canonical form: symbols of the alphabet and at most two signs of padding make whole
groups of four, and the bits of the last symbol that belong to no byte are zero. -/
def IsCanonical (cs : List Char) : Prop :=
  ∃ sextets : List Nat, ∃ padding ≤ 2, cs = sextets.map symbol ++ List.replicate padding '=' ∧
    (∀ n ∈ sextets, n < 64) ∧ (sextets.length + padding) % 4 = 0 ∧
    ∀ n ∈ sextets.getLast?, n % Nat.pow 4 padding = 0

theorem isCanonical_encode (bytes : List UInt8) : IsCanonical (encode bytes) := by
  induction bytes using encode.induct with
  | case1 a b c rest ih =>
    obtain ⟨w, hw, x, hx, y, hy, z, hz, rfl, rfl, rfl⟩ := exists_sextets a b c
    obtain ⟨sextets, padding, hpadding, heq, hbound, hgroups, hspare⟩ := ih
    refine ⟨w :: x :: y :: z :: sextets, padding, hpadding, ?_, ?_, ?_, ?_⟩
    · rw [encode_group hw hx hy hz, heq]
      rfl
    · simp only [List.forall_mem_cons]
      exact ⟨hw, hx, hy, hz, hbound⟩
    · simp only [List.length_cons]
      omega
    · cases sextets with
      | nil =>
        have hnone : padding = 0 := by
          simp at hgroups
          omega
        simp [hnone, Nat.mod_one]
      | cons n later => simpa using hspare
  | case2 a b =>
    obtain ⟨w, hw, x, hx, y, hy, hspare, rfl, rfl⟩ := exists_sextets_of_two a b
    refine ⟨[w, x, y], 1, by decide, encode_two hw hx hy hspare, ?_, by simp, ?_⟩
    · simp [hw, hx, hy]
    · simpa using hspare
  | case3 a =>
    obtain ⟨w, hw, x, hx, hspare, rfl⟩ := exists_sextets_of_one a
    refine ⟨[w, x], 2, by decide, encode_one hw hx hspare, ?_, by simp, ?_⟩
    · simp [hw, hx]
    · simpa using hspare
  | case4 => exact ⟨[], 0, by decide, rfl, by simp, rfl, by simp⟩

theorem exists_encode {padding : Nat} (hpadding : padding ≤ 2) : ∀ sextets : List Nat,
    (∀ n ∈ sextets, n < 64) → (sextets.length + padding) % 4 = 0 →
    (∀ n ∈ sextets.getLast?, n % Nat.pow 4 padding = 0) →
    ∃ bytes, encode bytes = sextets.map symbol ++ List.replicate padding '='
  | [], _, hgroups, _ => by
    have hnone : padding = 0 := by
      simp at hgroups
      omega
    exact ⟨[], by rw [hnone]; rfl⟩
  | [w], _, hgroups, _ => by
    simp at hgroups
    omega
  | [w, x], hbound, hgroups, hspare => by
    obtain rfl : padding = 2 := by
      simp at hgroups
      omega
    simp only [List.forall_mem_cons] at hbound
    exact ⟨[firstByte w x], encode_one hbound.1 hbound.2.1 (by simpa using hspare)⟩
  | [w, x, y], hbound, hgroups, hspare => by
    obtain rfl : padding = 1 := by
      simp at hgroups
      omega
    simp only [List.forall_mem_cons] at hbound
    exact ⟨[firstByte w x, secondByte x y],
      encode_two hbound.1 hbound.2.1 hbound.2.2.1 (by simpa using hspare)⟩
  | w :: x :: y :: z :: sextets, hbound, hgroups, hspare => by
    simp only [List.forall_mem_cons] at hbound
    obtain ⟨hw, hx, hy, hz, hbound⟩ := hbound
    have hlast : ∀ n ∈ sextets.getLast?, n % Nat.pow 4 padding = 0 := by
      cases sextets with
      | nil => simp
      | cons n later => simpa using hspare
    obtain ⟨bytes, heq⟩ := exists_encode hpadding sextets hbound
      (by simp only [List.length_cons] at hgroups; omega) hlast
    refine ⟨firstByte w x :: secondByte x y :: thirdByte y z :: bytes, ?_⟩
    rw [encode_group hw hx hy hz, heq]
    rfl

/-- The canonical texts are those that are written for some bytes. -/
theorem isCanonical_iff {cs : List Char} : IsCanonical cs ↔ ∃ bytes, cs = encode bytes := by
  constructor
  · rintro ⟨sextets, padding, hpadding, rfl, hbound, hgroups, hspare⟩
    obtain ⟨bytes, heq⟩ := exists_encode hpadding sextets hbound hgroups hspare
    exact ⟨bytes, heq.symm⟩
  · rintro ⟨bytes, rfl⟩
    exact isCanonical_encode bytes

end ItemTable.Text.Base64
