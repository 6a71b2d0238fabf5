import Pindex.CipherTheorems
import Pindex.HashPassword

/-!
# Salts and hashes as texts

`readSalt` on every text: which salts are read (`readSalt_eq_valid_iff`), and which ones trap
instead (`readSalt_eq_trap_iff`). A hash starts with the settings it was made with, so that it
is as good a salt as the one it was made from (`hashPassword_hash`): that is what
`verifyPassword` relies on (`verifyPassword_eq_true_iff`).
-/

namespace Pindex.BCryptSwift

open Sextets

variable {salt tail : List Character} {realSalt revision : List Char} {minor : Char} {rounds : ℤ}
  {off : ℕ}

/-! ## The salts that are read -/

/-- The texts of a revision, and what `minor` becomes. -/
inductive Revision : List Char → Char → Prop
  | missing : Revision [] '\x00'
  | letter (minor : Char) (h : minor = 'y' ∨ minor = 'a' ∨ minor = 'b') : Revision [minor] minor

/-- What stands before the Base64 characters. -/
def header (revision : List Char) (d1 d2 separator : Character) : List Character :=
  characters ('$' :: '2' :: revision ++ ['$']) ++ [d1, d2, separator]

/-- The salt is a header for these settings with `tail` after it. Any character up to "$" ends
the rounds. -/
def Headed (salt : List Character) (minor : Char) (rounds : ℤ) (tail : List Character) : Prop :=
  ∃ (revision : List Char) (d1 d2 separator : Character), Revision revision minor ∧
    parseInt (d1.scalars ++ d2.scalars) = some rounds ∧ ¬ separator > ('$' : Character) ∧
    salt = header revision d1 d2 separator ++ tail

@[simp] theorem length_characters (text : List Char) : (characters text).length = text.length :=
  List.length_map _

@[simp] theorem map_scalar_characters (text : List Char) :
    (characters text).map Character.scalar = text := by
  rw [characters, List.map_map]
  exact List.map_id text

theorem take_characters (text : List Char) (n : ℕ) :
    (characters text).take n = characters (text.take n) :=
  (List.map_take).symm

theorem drop_eq_getD_cons {i : ℕ} (h : i < salt.length) :
    salt.drop i = salt.getD i '\x00' :: salt.drop (i + 1) := by
  rw [List.drop_eq_getElem_cons h, List.getD_eq_getElem _ _ h]

/-- The revision and the "$" are what stands from the third character up to `off`. -/
theorem readRevision_eq_some (h : readRevision salt = some (minor, off)) (hlen : 16 ≤ salt.length) :
    (∃ revision, Revision revision minor ∧
      salt.drop 2 = characters (revision ++ ['$']) ++ salt.drop off) ∧ off + 3 < salt.length := by
  unfold readRevision at h
  by_cases hdollar : salt.getD 2 '\x00' = '$'
  · rw [if_pos hdollar, Option.some.injEq, Prod.mk.injEq] at h
    obtain ⟨rfl, rfl⟩ := h
    refine ⟨⟨[], .missing, ?_⟩, by omega⟩
    rw [drop_eq_getD_cons (by omega), hdollar]
    rfl
  · rw [if_neg hdollar] at h
    dsimp only at h
    split at h
    · exact absurd h (by simp)
    · rename_i hread
      rw [Option.some.injEq, Prod.mk.injEq] at h
      obtain ⟨rfl, rfl⟩ := h
      rw [not_or, not_not] at hread
      obtain ⟨hminor, hnext⟩ := hread
      obtain ⟨c, hc, hletter⟩ : ∃ c : Char, salt.getD 2 '\x00' = c ∧
          (c = 'y' ∨ c = 'a' ∨ c = 'b') := by
        by_cases hy : salt.getD 2 '\x00' = 'y'
        · exact ⟨'y', hy, .inl rfl⟩
        · by_cases ha : salt.getD 2 '\x00' = 'a'
          · exact ⟨'a', ha, .inr (.inl rfl)⟩
          · exact ⟨'b', by tauto, .inr (.inr rfl)⟩
      rw [hc]
      refine ⟨⟨[c], .letter c hletter, ?_⟩, by omega⟩
      rw [drop_eq_getD_cons (by omega), drop_eq_getD_cons (by omega), hc, hnext]
      rfl

/-- A header is read back. -/
theorem readRevision_header (h : Revision revision minor) (d1 d2 separator : Character)
    (tail : List Character) : readRevision (header revision d1 d2 separator ++ tail) =
      some (minor, revision.length + 3) := by
  cases h with
  | missing => rfl
  | letter _ h => rcases h with rfl | rfl | rfl <;> rfl

theorem headed_of_readRevision (h : readRevision salt = some (minor, off))
    (hlen : 16 ≤ salt.length) (hdollar : salt.getD 0 '\x00' = '$') (htwo : salt.getD 1 '\x00' = '2')
    (hsep : ¬ salt.getD (off + 2) '\x00' > '$')
    (hrounds : parseInt (((salt.drop off).take 2).flatMap Character.scalars) = some rounds) :
    Headed salt minor rounds (salt.drop (off + 3)) := by
  obtain ⟨⟨revision, hrev, hdrop⟩, hoff⟩ := readRevision_eq_some h hlen
  have hrest : salt.drop off = salt.getD off '\x00' :: salt.getD (off + 1) '\x00' ::
      salt.getD (off + 2) '\x00' :: salt.drop (off + 3) := by
    rw [drop_eq_getD_cons (by omega), drop_eq_getD_cons (by omega), drop_eq_getD_cons (by omega)]
  rw [hrest] at hrounds
  have hdigits : parseInt ((salt.getD off '\x00').scalars ++ (salt.getD (off + 1) '\x00').scalars) =
      some rounds := by
    simpa using hrounds
  refine ⟨revision, _, _, _, hrev, hdigits, hsep, ?_⟩
  calc salt = salt.getD 0 '\x00' :: salt.getD 1 '\x00' :: salt.drop 2 := by
        rw [← drop_eq_getD_cons (by omega), ← drop_eq_getD_cons (by omega), List.drop_zero]
    _ = characters ['$', '2'] ++ (characters (revision ++ ['$']) ++ salt.drop off) := by
        rw [hdollar, htwo, hdrop]
        rfl
    _ = _ := by
        rw [hrest]
        simp [header, characters]

/-- A headed salt is read, or traps when too few characters follow the header. -/
theorem readSalt_of_headed (h : Headed salt minor rounds tail) (hlen : 16 ≤ salt.length) :
    readSalt salt =
      if tail.length < 22 then .trap
      else .valid ⟨minor, rounds, (tail.take 22).map Character.scalar⟩ := by
  obtain ⟨revision, d1, d2, separator, hrev, hrounds, hsep, rfl⟩ := h
  have hread := readRevision_header hrev d1 d2 separator tail
  generalize hsalt : header revision d1 d2 separator ++ tail = salt at hlen hread
  -- what stands at the offsets from the end of the revision on
  have hparts : salt.getD 0 '\x00' = '$' ∧ salt.getD 1 '\x00' = '2' ∧
      salt.getD (revision.length + 3 + 2) '\x00' = separator ∧
      (salt.drop (revision.length + 3)).take 2 = [d1, d2] ∧
      salt.drop (revision.length + 3 + 3) = tail ∧
      salt.length = revision.length + 3 + 3 + tail.length := by
    subst hsalt
    cases hrev with
    | missing => exact ⟨rfl, rfl, rfl, rfl, rfl, by simp [header, characters]; omega⟩
    | letter => exact ⟨rfl, rfl, rfl, rfl, rfl, by simp [header, characters]; omega⟩
  obtain ⟨hdollar, htwo, hsepAt, hdigits, htail, hlength⟩ := hparts
  unfold readSalt
  rw [if_neg (by omega), if_neg (by rw [hdollar, htwo]; decide), hread]
  dsimp only
  have hscalars : [d1, d2].flatMap Character.scalars = d1.scalars ++ d2.scalars := by simp
  rw [hsepAt, if_neg hsep, hdigits, hscalars, hrounds]
  dsimp only
  have hshort : salt.length < revision.length + 3 + 25 ↔ tail.length < 22 := by omega
  rw [htail]
  simp only [hshort]

/-- Whatever is not refused has a header. -/
theorem headed_of_readSalt (h : readSalt salt ≠ .invalid) :
    16 ≤ salt.length ∧ ∃ minor rounds tail, Headed salt minor rounds tail := by
  unfold readSalt at h
  by_cases hlen : salt.length < 16
  · rw [if_pos hlen] at h
    exact absurd rfl h
  rw [if_neg hlen] at h
  by_cases hversion : salt.getD 0 '\x00' ≠ '$' ∨ salt.getD 1 '\x00' ≠ '2'
  · rw [if_pos hversion] at h
    exact absurd rfl h
  rw [if_neg hversion] at h
  rw [not_or, not_not, not_not] at hversion
  split at h
  · exact absurd rfl h
  rename_i minor off hread
  by_cases hsep : salt.getD (off + 2) '\x00' > '$'
  · rw [if_pos hsep] at h
    exact absurd rfl h
  rw [if_neg hsep] at h
  split at h
  · exact absurd rfl h
  rename_i rounds hrounds
  exact ⟨by omega, minor, rounds, _,
    headed_of_readRevision hread (by omega) hversion.1 hversion.2 hsep hrounds⟩

theorem le_length_of_headed (h : Headed salt minor rounds tail) :
    tail.length + 6 ≤ salt.length := by
  obtain ⟨revision, d1, d2, separator, -, -, -, rfl⟩ := h
  simp [header, characters]

/-- The salts that are read: 22 characters or more after a header. -/
theorem readSalt_eq_valid_iff : readSalt salt = .valid ⟨minor, rounds, realSalt⟩ ↔
    ∃ tail, Headed salt minor rounds tail ∧ 22 ≤ tail.length ∧
      (tail.take 22).map Character.scalar = realSalt := by
  constructor
  · intro h
    obtain ⟨hlen, minor', rounds', tail, hhead⟩ := headed_of_readSalt (by rw [h]; simp)
    rw [readSalt_of_headed hhead hlen] at h
    split at h
    · exact absurd h (by simp)
    · rw [SaltResult.valid.injEq, Settings.mk.injEq] at h
      obtain ⟨rfl, rfl, hreal⟩ := h
      exact ⟨tail, hhead, by omega, hreal⟩
  · intro ⟨tail, hhead, htail, hreal⟩
    have hlen := le_length_of_headed hhead
    rw [readSalt_of_headed hhead (by omega), if_neg (by omega), hreal]

/-- The salts that trap: 16 characters or more, but less than 22 after the header. -/
theorem readSalt_eq_trap_iff : readSalt salt = .trap ↔
    16 ≤ salt.length ∧ ∃ minor rounds tail, Headed salt minor rounds tail ∧ tail.length < 22 := by
  constructor
  · intro h
    obtain ⟨hlen, minor, rounds, tail, hhead⟩ := headed_of_readSalt (by rw [h]; simp)
    rw [readSalt_of_headed hhead hlen] at h
    split at h
    · exact ⟨hlen, minor, rounds, tail, hhead, ‹_›⟩
    · exact absurd h (by simp)
  · intro ⟨hlen, minor, rounds, tail, hhead, htail⟩
    rw [readSalt_of_headed hhead hlen, if_pos htail]

/-- "\r\n" is one `Character`, which may end the rounds. -/
example : readSalt (characters "$2a$04".toList ++ [⟨'\r', ['\n']⟩] ++
    characters (List.replicate 22 '.')) = .valid ⟨'a', 4, List.replicate 22 '.'⟩ := by
  decide

/-! ## What a hash says -/

variable {password password' hash hash' : String} {s : List Character}
  {saltData digest digest' : List UInt8}

/-- What `hashPassword` makes of settings. -/
def hashWith (password : String) (minor : Char) (rounds : ℤ) (saltData : List UInt8) :
    Option (Option String) :=
  match hashData (passwordBytes minor password) saltData rounds with
  | none => some none
  | some digest =>
    if Traps (passwordBytes minor password) then none
    else some (some (.ofList (writeSettings minor rounds saltData ++ encodeData digest 23)))

/-- With a salt that is read, the settings decide. -/
theorem hashPassword_of_valid (h : readSalt s = .valid ⟨minor, rounds, realSalt⟩) :
    hashPassword password s =
      hashWith password minor rounds (decode_base64 realSalt BCRYPT_SALT_LEN) := by
  unfold hashPassword
  generalize readSalt s = result at h
  subst h
  rfl

theorem hashWith_eq_some_iff : hashWith password minor rounds saltData = some (some hash) ↔
    ∃ digest, hashData (passwordBytes minor password) saltData rounds = some digest ∧
      ¬ Traps (passwordBytes minor password) ∧
      hash = .ofList (writeSettings minor rounds saltData ++ encodeData digest 23) := by
  unfold hashWith
  cases hashData (passwordBytes minor password) saltData rounds with
  | none => simp
  | some digest =>
    dsimp only
    by_cases htraps : Traps (passwordBytes minor password)
    · simp [htraps]
    · rw [if_neg htraps]
      simp [htraps, eq_comm]

/-- A hash comes from settings that could be read. -/
theorem hashPassword_eq_some_iff : hashPassword password s = some (some hash) ↔
    ∃ minor rounds realSalt, readSalt s = .valid ⟨minor, rounds, realSalt⟩ ∧
      hashWith password minor rounds (decode_base64 realSalt BCRYPT_SALT_LEN) =
        some (some hash) := by
  constructor
  · intro h
    cases hread : readSalt s with
    | trap => simp [hashPassword, hread] at h
    | invalid => simp [hashPassword, hread] at h
    | valid settings =>
      rw [hashPassword_of_valid hread] at h
      exact ⟨_, _, _, rfl, h⟩
  · intro ⟨minor, rounds, realSalt, hread, h⟩
    rw [hashPassword_of_valid hread, h]

/-- Rounds below 100 are written with two digits. -/
theorem digits_of_rounds (hmin : 0 ≤ rounds) (hmax : rounds < 100) : ∃ d1 d2,
    (if rounds < 10 then ['0'] else []) ++ decimal rounds = [d1, d2] ∧
      parseInt [d1, d2] = some rounds ∧ d1.isDigit ∧ d2.isDigit := by
  -- a hundred cases to compute
  have hall : ∀ n : Fin 100,
      ((if (n : ℤ) < 10 then ['0'] else []) ++ decimal n).length = 2 ∧
        parseInt ((if (n : ℤ) < 10 then ['0'] else []) ++ decimal n) = some n ∧
        ((if (n : ℤ) < 10 then ['0'] else []) ++ decimal n).all Char.isDigit = true := by
    decide
  obtain ⟨n, rfl⟩ := Int.eq_ofNat_of_zero_le hmin
  obtain ⟨hlen, hparse, hdigit⟩ := hall ⟨n, by omega⟩
  obtain ⟨d1, d2, hdigits⟩ := List.length_eq_two.mp hlen
  rw [hdigits] at hparse hdigit
  simp only [List.all_cons, List.all_nil, Bool.and_true, Bool.and_eq_true] at hdigit
  exact ⟨d1, d2, hdigits, hparse, hdigit⟩

/-- A revision is written as it was read. -/
theorem revision_written (h : Revision revision minor) :
    (if minor ≥ 'a' then [minor] else []) = revision := by
  cases h with
  | missing => decide
  | letter _ h => rcases h with rfl | rfl | rfl <;> decide

/-- The header of what is written. -/
def settingsText (revision : List Char) (d1 d2 : Char) : List Char :=
  '$' :: '2' :: revision ++ ['$', d1, d2, '$']

theorem characters_settingsText (revision : List Char) (d1 d2 : Char) (rest : List Char) :
    characters (settingsText revision d1 d2 ++ rest) =
      header revision d1 d2 '$' ++ characters rest := by
  simp [settingsText, header, characters]

/-- The settings are written as the header of a salt that has them. -/
theorem writeSettings_eq_settingsText (hrev : Revision revision minor) (hmin : 0 ≤ rounds)
    (hmax : rounds < 100) (saltData : List UInt8) : ∃ d1 d2,
    parseInt [d1, d2] = some rounds ∧ d1.isDigit ∧ d2.isDigit ∧
      writeSettings minor rounds saltData =
        settingsText revision d1 d2 ++ (sextets saltData).map base64_code.get := by
  obtain ⟨d1, d2, hdigits, hparse, hd1, hd2⟩ := digits_of_rounds hmin hmax
  refine ⟨d1, d2, hparse, hd1, hd2, ?_⟩
  unfold writeSettings settingsText
  rw [revision_written hrev, List.append_assoc _ (if rounds < 10 then _ else _) (decimal rounds),
    hdigits, encodeData_eq, List.take_length]
  simp

/-- What is written is read back, whatever follows. -/
theorem readSalt_written (hrev : Revision revision minor) (hmin : 0 ≤ rounds)
    (hmax : rounds < 100) (hlen : saltData.length = 16) (tail : List Char) :
    readSalt (characters (writeSettings minor rounds saltData ++ tail)) =
      .valid ⟨minor, rounds, (sextets saltData).map base64_code.get⟩ := by
  obtain ⟨d1, d2, hparse, -, -, htext⟩ := writeSettings_eq_settingsText hrev hmin hmax saltData
  have hchars : ((sextets saltData).map base64_code.get).length = 22 := by
    rw [List.length_map, length_sextets, hlen]
  -- the 22 characters of the salt data are the first after the header
  rw [readSalt_eq_valid_iff, htext, List.append_assoc, characters_settingsText]
  refine ⟨_, ⟨revision, d1, d2, '$', hrev, hparse, by decide, rfl⟩, ?_, ?_⟩
  · rw [length_characters, List.length_append]
    omega
  · rw [take_characters, map_scalar_characters]
    exact List.take_left' hchars

/-- The Base64 text of 16 bytes is read back. -/
theorem decode_sextets (hlen : saltData.length = 16) :
    decode_base64 ((sextets saltData).map base64_code.get) BCRYPT_SALT_LEN = saltData := by
  rw [decode_base64, decodeLoop_map, bytes_sextets]
  exact List.take_of_length_le hlen.le

theorem hashData_settings (h : hashData (passwordBytes minor password) saltData rounds =
    some digest) : 4 ≤ rounds ∧ rounds ≤ 31 ∧ saltData.length = 16 :=
  (hashData_eq_some_iff.mp h).1

/-- What `hashPassword` writes: the settings and 31 characters for a digest. -/
structure HashText (revision : List Char) (minor : Char) (rounds : ℤ) (saltData : List UInt8)
    (digest : List UInt8) (hash : String) : Prop where
  is_revision : Revision revision minor
  rounds_mem : 4 ≤ rounds ∧ rounds ≤ 31
  saltData_length : saltData.length = 16
  digest_length : digest.length = 24
  text : hash.toList = writeSettings minor rounds saltData ++
    (sextets (digest.take 23)).map base64_code.get

theorem length_flatMap_wordBytes (ws : List UInt32) :
    (ws.flatMap wordBytes).length = 4 * ws.length := by
  induction ws with
  | nil => rfl
  | cons w ws ih =>
    rw [List.flatMap_cons, List.length_append, ih, List.length_cons]
    show 4 + _ = _
    omega

/-- A digest has the 24 bytes of the six words. -/
theorem length_hashData {data : List UInt8} (h : hashData data saltData rounds = some digest) :
    digest.length = 24 := by
  obtain ⟨-, cdata, rfl, -⟩ := hashData_eq_some_iff.mp h
  rw [length_flatMap_wordBytes, Vector.length_toList]

theorem hashText_of_digest (hrev : Revision revision minor) (hrounds : 4 ≤ rounds ∧ rounds ≤ 31)
    (hsalt : saltData.length = 16) (hdigest : digest.length = 24) :
    HashText revision minor rounds saltData digest
      (.ofList (writeSettings minor rounds saltData ++ encodeData digest 23)) where
  is_revision := hrev
  rounds_mem := hrounds
  saltData_length := hsalt
  digest_length := hdigest
  text := by rw [String.toList_ofList, encodeData_eq digest]

/-- What is read off the salt, and what the hash says of it. -/
theorem hashText (hread : readSalt s = .valid ⟨minor, rounds, realSalt⟩)
    (h : hashPassword password s = some (some hash)) : ∃ revision digest,
      hashData (passwordBytes minor password) (decode_base64 realSalt BCRYPT_SALT_LEN) rounds =
        some digest ∧ ¬ Traps (passwordBytes minor password) ∧
      HashText revision minor rounds (decode_base64 realSalt BCRYPT_SALT_LEN) digest hash := by
  rw [hashPassword_of_valid hread] at h
  obtain ⟨digest, hdata, htraps, rfl⟩ := hashWith_eq_some_iff.mp h
  obtain ⟨hmin, hmax, hlen⟩ := hashData_settings hdata
  obtain ⟨tail, ⟨revision, -, -, -, hrev, -⟩, -⟩ := readSalt_eq_valid_iff.mp hread
  exact ⟨revision, digest, hdata, htraps,
    hashText_of_digest hrev ⟨hmin, hmax⟩ hlen (length_hashData hdata)⟩

/-- Nothing but ASCII in it. -/
def IsPlain (s : String) : Prop := ∀ c ∈ s.toList, c.toNat < 128

/-- The alphabet is ASCII. -/
theorem toNat_code_lt : ∀ x : Fin 64, (base64_code.get x).toNat < 128 := by
  decide

theorem code_injective : Function.Injective base64_code.get := by
  have hall : ∀ x y : Fin 64, base64_code.get x = base64_code.get y → x = y := by decide
  intro x y
  exact hall x y

theorem toNat_digit_lt {c : Char} (h : c.isDigit = true) : c.toNat < 128 := by
  unfold Char.isDigit at h
  simp only [Bool.and_eq_true, decide_eq_true_eq] at h
  have hmax : c.val.toNat ≤ 57 := UInt32.le_iff_toNat_le.mp h.2
  show c.val.toNat < 128
  omega

theorem Revision.unique {revision' : List Char} (h : Revision revision minor)
    (h' : Revision revision' minor) : revision = revision' := by
  rw [← revision_written h, revision_written h']

theorem Revision.toNat_lt {c : Char} (h : Revision revision minor) (hc : c ∈ revision) :
    c.toNat < 128 := by
  cases h with
  | missing => exact absurd hc List.not_mem_nil
  | letter _ h =>
    rw [List.mem_singleton.mp hc]
    rcases h with rfl | rfl | rfl <;> decide

namespace HashText

theorem exists_settingsText (h : HashText revision minor rounds saltData digest hash) : ∃ d1 d2,
    d1.isDigit ∧ d2.isDigit ∧
      hash.toList = settingsText revision d1 d2 ++ (sextets saltData).map base64_code.get ++
        (sextets (digest.take 23)).map base64_code.get := by
  have hmin : 0 ≤ rounds := (show (0 : ℤ) ≤ 4 by decide).trans h.rounds_mem.1
  have hmax : rounds < 100 := h.rounds_mem.2.trans_lt (by decide)
  obtain ⟨d1, d2, -, hd1, hd2, htext⟩ :=
    writeSettings_eq_settingsText h.is_revision hmin hmax saltData
  exact ⟨d1, d2, hd1, hd2, by rw [h.text, htext]⟩

/-- A hash is a salt with the same settings. -/
theorem readSalt_eq (h : HashText revision minor rounds saltData digest hash) :
    readSalt hash =
      .valid ⟨minor, rounds, (sextets saltData).map base64_code.get⟩ := by
  obtain ⟨hmin, hmax⟩ := h.rounds_mem
  rw [h.text]
  exact readSalt_written h.is_revision (by omega) (by omega) h.saltData_length _

/-- Hashes with the same settings differ only in their digests, of which the last byte is
left out. -/
theorem eq_iff (h : HashText revision minor rounds saltData digest hash)
    (h' : HashText revision minor rounds saltData digest' hash') :
    hash = hash' ↔ digest.take 23 = digest'.take 23 := by
  rw [← String.toList_inj, h.text, h'.text, List.append_right_inj,
    (List.map_injective_iff.mpr code_injective).eq_iff, sextets_injective.eq_iff]

/-- A hash is ASCII, so it has no clusters. -/
theorem isPlain (h : HashText revision minor rounds saltData digest hash) : IsPlain hash := by
  obtain ⟨d1, d2, hd1, hd2, htext⟩ := h.exists_settingsText
  have hcodes : ∀ xs : List (Fin 64), ∀ c ∈ xs.map base64_code.get, c.toNat < 128 := by
    intro xs c hc
    obtain ⟨x, -, rfl⟩ := List.mem_map.mp hc
    exact toNat_code_lt x
  intro c hc
  rw [htext, List.mem_append, List.mem_append] at hc
  rcases hc with (hc | hc) | hc
  · unfold settingsText at hc
    simp only [List.mem_cons, List.mem_append, List.cons_append, List.not_mem_nil, or_false] at hc
    rcases hc with rfl | rfl | hc | rfl | rfl | rfl | rfl
    · decide
    · decide
    · exact h.is_revision.toNat_lt hc
    · decide
    · exact toNat_digit_lt hd1
    · exact toNat_digit_lt hd2
    · decide
  · exact hcodes _ c hc
  · exact hcodes _ c hc

/-- Behind the header come 22 characters of salt data and 31 of the digest. -/
theorem length_eq (h : HashText revision minor rounds saltData digest hash) :
    hash.toList.length = revision.length + 59 := by
  obtain ⟨d1, d2, -, -, htext⟩ := h.exists_settingsText
  have hdigest : (digest.take 23).length = 23 := by
    rw [List.length_take, h.digest_length]
    rfl
  rw [htext, List.length_append, List.length_append, List.length_map, List.length_map,
    length_sextets, length_sextets, h.saltData_length, hdigest]
  simp [settingsText]

end HashText

/-! ## Hashes as salts -/

/-- A hash is as good a salt as the one it was made from, for every password. -/
theorem hashPassword_hash (h : hashPassword password s = some (some hash)) :
    hashPassword password' hash = hashPassword password' s := by
  obtain ⟨minor, rounds, realSalt, hread, -⟩ := hashPassword_eq_some_iff.mp h
  obtain ⟨revision, digest, -, -, htext⟩ := hashText hread h
  rw [hashPassword_of_valid hread, hashPassword_of_valid htext.readSalt_eq,
    decode_sextets htext.saltData_length]

variable {stringEq : String → String → Bool}

theorem verifyPassword_hash (h : hashPassword password s = some (some hash)) :
    verifyPassword stringEq password' hash = (hashPassword password' s).map fun hashed =>
      hashed.map fun hashed => stringEq hashed hash := by
  rw [verifyPassword, hashPassword_hash h]

/-! ## When there is a hash -/

/-- The data function refuses rounds and lengths, and nothing else. -/
theorem exists_hashData_iff {data : List UInt8} :
    (∃ digest, hashData data saltData rounds = some digest) ↔
      4 ≤ rounds ∧ rounds ≤ 31 ∧ saltData.length = 16 := by
  constructor
  · intro ⟨digest, hdigest⟩
    exact (hashData_eq_some_iff.mp hdigest).1
  · intro ⟨hmin, hmax, hlen⟩
    unfold hashData
    rw [if_neg (by omega), if_neg (by omega)]
    exact ⟨_, rfl⟩

/-- The characters behind the salt data are not looked at. -/
theorem readable_take (hlen : 22 ≤ tail.length) :
    (decode_base64 ((tail.take 22).map Character.scalar) BCRYPT_SALT_LEN).length = 16 ↔
      Readable (tail.map Character.scalar) 16 := by
  rw [List.map_take]
  have h : 22 ≤ (tail.map Character.scalar).length := by rwa [List.length_map]
  generalize tail.map Character.scalar = text at h
  show (decodeLoop (text.take 22) 16).length = 16 ↔ _
  rw [length_decodeLoop_eq_iff]
  unfold Readable
  have htake : (text.take 22).length = 22 := List.length_take_of_le h
  have hget : ∀ i < 22, (text.take 22).getD i '.' = text.getD i '.' := by
    intro i hi
    rw [List.getD_eq_getElem _ _ (by omega), List.getD_eq_getElem _ _ (by omega),
      List.getElem_take]
  constructor
  · intro ⟨_, hread⟩
    refine ⟨h, fun i hi hmod => ?_⟩
    rw [← hget i hi]
    exact hread i hi hmod
  · intro ⟨_, hread⟩
    refine ⟨htake.ge, fun i hi hmod => ?_⟩
    rw [hget i hi]
    exact hread i hi hmod

/-- Readable texts are long enough for a salt. -/
theorem le_length_of_readable (h : Readable (tail.map Character.scalar) 16) : 22 ≤ tail.length := by
  have hlen := h.1
  rwa [List.length_map] at hlen

/-- There is a hash for the salts that have a header, rounds from 4 to 31, and 22 characters
after it that start with one of the alphabet, but for every fourth, which may be any. -/
theorem exists_hash_iff : (∃ hash, hashPassword password s = some (some hash)) ↔
    ∃ minor rounds tail, Headed s minor rounds tail ∧ 4 ≤ rounds ∧ rounds ≤ 31 ∧
      Readable (tail.map Character.scalar) 16 ∧ ¬ Traps (passwordBytes minor password) := by
  constructor
  · intro ⟨hash, h⟩
    obtain ⟨minor, rounds, realSalt, hread, -⟩ := hashPassword_eq_some_iff.mp h
    obtain ⟨revision, digest, -, htraps, htext⟩ := hashText hread h
    obtain ⟨tail, hhead, hlen, rfl⟩ := readSalt_eq_valid_iff.mp hread
    exact ⟨minor, rounds, tail, hhead, htext.rounds_mem.1, htext.rounds_mem.2,
      (readable_take hlen).mp htext.saltData_length, htraps⟩
  · intro ⟨minor, rounds, tail, hhead, hmin, hmax, hread, htraps⟩
    have hlen := le_length_of_readable hread
    obtain ⟨digest, hdata⟩ := exists_hashData_iff.mpr ⟨hmin, hmax, (readable_take hlen).mpr hread⟩
    have hsalt := readSalt_eq_valid_iff.mpr ⟨tail, hhead, hlen, rfl⟩
    exact ⟨_, hashPassword_eq_some_iff.mpr ⟨_, _, _, hsalt,
      hashWith_eq_some_iff.mpr ⟨digest, hdata, htraps, rfl⟩⟩⟩

/-- The calls that trap: the salt breaks off after its header, or the password has no bytes or
too many of them. -/
theorem hashPassword_eq_none_iff : hashPassword password s = none ↔
    ∃ minor rounds tail, Headed s minor rounds tail ∧
      (16 ≤ s.length ∧ tail.length < 22 ∨ 4 ≤ rounds ∧ rounds ≤ 31 ∧
        Readable (tail.map Character.scalar) 16 ∧ Traps (passwordBytes minor password)) := by
  constructor
  · intro h
    cases hread : readSalt s with
    | invalid => simp [hashPassword, hread] at h
    | trap =>
      obtain ⟨hlen, minor, rounds, tail, hhead, hshort⟩ := readSalt_eq_trap_iff.mp hread
      exact ⟨minor, rounds, tail, hhead, .inl ⟨hlen, hshort⟩⟩
    | valid settings =>
      obtain ⟨minor, rounds, realSalt⟩ := settings
      obtain ⟨tail, hhead, hlen, rfl⟩ := readSalt_eq_valid_iff.mp hread
      rw [hashPassword_of_valid hread] at h
      unfold hashWith at h
      split at h
      · exact absurd h (by simp)
      rename_i digest hdata
      obtain ⟨hmin, hmax, hsalt⟩ := hashData_settings hdata
      split at h
      · exact ⟨minor, rounds, tail, hhead, .inr ⟨hmin, hmax, (readable_take hlen).mp hsalt, ‹_›⟩⟩
      · exact absurd h (by simp)
  · intro ⟨minor, rounds, tail, hhead, hcase⟩
    rcases hcase with ⟨hlen, hshort⟩ | ⟨hmin, hmax, hread, htraps⟩
    · have htrap := readSalt_eq_trap_iff.mpr ⟨hlen, minor, rounds, tail, hhead, hshort⟩
      unfold hashPassword
      rw [htrap]
    · have hlen := le_length_of_readable hread
      obtain ⟨digest, hdata⟩ :=
        exists_hashData_iff.mpr ⟨hmin, hmax, (readable_take hlen).mpr hread⟩
      rw [hashPassword_of_valid (readSalt_eq_valid_iff.mpr ⟨tail, hhead, hlen, rfl⟩)]
      unfold hashWith
      rw [hdata]
      exact if_pos htraps

/-! ## The salt of the app -/

/-- The bytes of the password and a zero byte are less than `2 ^ 31`. -/
def Fits (password : String) : Prop := (utf8 password).length + 1 < 2 ^ 31

instance : DecidablePred Fits := fun password =>
  inferInstanceAs (Decidable ((utf8 password).length + 1 < 2 ^ 31))

/-- What `hashPassword` reads off the salt of the app. -/
theorem readSalt_salt :
    readSalt Pindex.salt = .valid ⟨'a', 10, "klnsfCDZT0nnQeMHl0R2pu".toList⟩ := by
  decide

theorem passwordBytes_salt : passwordBytes 'a' password = passwordData password := by
  show utf8 (password ++ "\x00") = _
  rw [utf8_append]
  rfl

/-- A password that fits does not trap. -/
theorem not_traps_salt (h : Fits password) : ¬ Traps (passwordBytes 'a' password) := by
  unfold Fits at h
  rw [passwordBytes_salt]
  unfold Traps passwordData
  rw [List.length_append, List.length_singleton]
  omega

/-- The salt data of the app. -/
def decodedSalt : List UInt8 := decode_base64 "klnsfCDZT0nnQeMHl0R2pu".toList BCRYPT_SALT_LEN

/-- The characters after the settings are 22 sextets, and no bit of the last one is lost. -/
theorem exists_sextets_salt : ∃ xs : List (Fin 64), xs.length = 22 ∧ Padded xs ∧
    decodedSalt = bytes xs ∧
    Pindex.salt.toList = ['$', '2', 'a', '$', '1', '0', '$'] ++ xs.map base64_code.get := by
  let xs : List (Fin 64) :=
    [38, 39, 41, 46, 33, 4, 5, 27, 21, 54, 41, 41, 18, 32, 14, 9, 39, 54, 19, 56, 43, 48]
  have hchars : "klnsfCDZT0nnQeMHl0R2pu".toList = xs.map base64_code.get := by decide
  have hlen : (bytes xs).length = 16 := by
    rw [length_bytes]
    decide
  refine ⟨xs, rfl, by decide, ?_, by decide⟩
  rw [decodedSalt, decode_base64, hchars, decodeLoop_map]
  exact List.take_of_length_le hlen.le

theorem length_decodedSalt : decodedSalt.length = 16 := by
  obtain ⟨xs, hlen, -, hdata, -⟩ := exists_sextets_salt
  rw [hdata, length_bytes, hlen]

/-- The salt is written as it was read. -/
theorem writeSettings_salt : writeSettings 'a' 10 decodedSalt = Pindex.salt.toList := by
  obtain ⟨xs, -, hpadded, hdata, hchars⟩ := exists_sextets_salt
  unfold writeSettings
  rw [hdata, encodeData_eq, List.take_length, (sextets_bytes_iff xs).mpr hpadded, hchars]
  rfl

/-- Every password that fits has a hash with the salt of the app, 60 characters of which the
first 29 are the salt. -/
theorem hashPassword_salt (h : Fits password) : ∃ hash,
    hashPassword password Pindex.salt = some (some hash) ∧ IsPlain hash ∧
      hash.toList.length = 60 ∧ Pindex.salt.toList <+: hash.toList := by
  obtain ⟨digest, hdata⟩ : ∃ digest,
      hashData (passwordBytes 'a' password) decodedSalt 10 = some digest :=
    exists_hashData_iff.mpr ⟨by decide, by decide, length_decodedSalt⟩
  have hhash : hashPassword password Pindex.salt = some (some (.ofList
      (writeSettings 'a' 10 decodedSalt ++ encodeData digest 23))) := by
    rw [hashPassword_of_valid readSalt_salt]
    exact hashWith_eq_some_iff.mpr ⟨digest, hdata, not_traps_salt h, rfl⟩
  have hrev : Revision ['a'] 'a' := .letter 'a' (.inr (.inl rfl))
  have htext := hashText_of_digest hrev (show 4 ≤ (10 : ℤ) ∧ (10 : ℤ) ≤ 31 by decide)
    length_decodedSalt (length_hashData hdata)
  refine ⟨_, hhash, htext.isPlain, htext.length_eq, ?_⟩
  rw [htext.text, writeSettings_salt]
  exact List.prefix_append _ _

/-- The key is all that the data function sees of a password. -/
theorem hashData_of_sameKey (hkey : SameKey password password') :
    hashData (passwordBytes 'a' password) saltData rounds =
      hashData (passwordBytes 'a' password') saltData rounds := by
  rw [passwordBytes_salt, passwordBytes_salt]
  exact hashData_congr (keyWords_passwordData.mpr hkey)

/-- Passwords with the same key have the same hash. -/
theorem hashPassword_salt_congr (h : Fits password) (h' : Fits password')
    (hkey : SameKey password password') :
    hashPassword password Pindex.salt = hashPassword password' Pindex.salt := by
  rw [hashPassword_of_valid readSalt_salt, hashPassword_of_valid readSalt_salt]
  unfold hashWith
  rw [hashData_of_sameKey hkey]
  cases hashData (passwordBytes 'a' password') _ 10 with
  | none => rfl
  | some digest =>
    dsimp only
    rw [if_neg (not_traps_salt h), if_neg (not_traps_salt h')]

/-! ## What a hash accepts -/

/-- A hash accepts the passwords whose digests have the first 23 bytes of its own. -/
theorem verifyPassword_eq_true_iff
    (hEq : ∀ s t, IsPlain s → IsPlain t → (stringEq s t = true ↔ s = t))
    (hread : readSalt s = .valid ⟨minor, rounds, realSalt⟩)
    (h : hashPassword password s = some (some hash)) :
    verifyPassword stringEq password' hash = some (some true) ↔
      ¬ Traps (passwordBytes minor password') ∧ ∃ digest digest',
        hashData (passwordBytes minor password) (decode_base64 realSalt BCRYPT_SALT_LEN) rounds =
          some digest ∧
        hashData (passwordBytes minor password') (decode_base64 realSalt BCRYPT_SALT_LEN) rounds =
          some digest' ∧
        digest'.take 23 = digest.take 23 := by
  obtain ⟨revision, digest, hdata, -, htext⟩ := hashText hread h
  -- verifying hashes the other password with the hash for its salt
  have haccepts : verifyPassword stringEq password' hash = some (some true) ↔
      ∃ hash', hashPassword password' s = some (some hash') ∧ stringEq hash' hash = true := by
    rw [verifyPassword_hash h]
    simp only [Option.map_eq_some_iff]
    constructor
    · intro ⟨hashed, hhashed, hash', hsome, htrue⟩
      exact ⟨hash', by rw [hhashed, hsome], htrue⟩
    · intro ⟨hash', hhashed, htrue⟩
      exact ⟨_, hhashed, hash', rfl, htrue⟩
  rw [haccepts]
  constructor
  · intro ⟨hash', hhash', htrue⟩
    -- both hashes have the settings of `s`, so only their digests can differ
    obtain ⟨revision', digest', hdata', htraps', htext'⟩ := hashText hread hhash'
    obtain rfl := htext.is_revision.unique htext'.is_revision
    rw [hEq _ _ htext'.isPlain htext.isPlain, htext'.eq_iff htext] at htrue
    exact ⟨htraps', digest, digest', hdata, hdata', htrue⟩
  · intro ⟨htraps', digest₁, digest', hdata₁, hdata', htake⟩
    obtain rfl : digest₁ = digest := Option.some.inj (hdata₁.symm.trans hdata)
    have hhash' : hashPassword password' s = some (some (.ofList (writeSettings minor rounds
        (decode_base64 realSalt BCRYPT_SALT_LEN) ++ encodeData digest' 23))) := by
      rw [hashPassword_of_valid hread]
      exact hashWith_eq_some_iff.mpr ⟨digest', hdata', htraps', rfl⟩
    have htext' := hashText_of_digest htext.is_revision htext.rounds_mem htext.saltData_length
      (length_hashData hdata')
    exact ⟨_, hhash', (hEq _ _ htext'.isPlain htext.isPlain).mpr
      ((htext'.eq_iff htext).mpr htake)⟩

/-- A password of 72 bytes, and one byte more: the hash of the longer one accepts the shorter. -/
theorem salted_verifies : ∃ password password' hash, password ≠ password' ∧
    hashPassword password Pindex.salt = some (some hash) ∧
    verifyPassword (· == ·) password' hash = some (some true) := by
  let short := String.ofList (List.replicate 72 'a')
  have hbytes : utf8 (short ++ "!") = utf8 short ++ utf8 "!" := utf8_append _ _
  have hlength : (utf8 short).length = 72 := by decide
  have hkey : SameKey (short ++ "!") short := by
    refine (sameKey_iff (by decide) (by decide)).mpr (.inr ⟨?_, hlength.ge, ?_⟩)
    · rw [hbytes, List.length_append]
      omega
    · rw [hbytes, List.take_append_of_le_length hlength.ge]
  have hfits : Fits (short ++ "!") := by decide
  obtain ⟨hash, hhash, -⟩ := hashPassword_salt hfits
  obtain ⟨digest, hdigest⟩ : ∃ digest, hashData (passwordBytes 'a' (short ++ "!"))
      (decode_base64 "klnsfCDZT0nnQeMHl0R2pu".toList BCRYPT_SALT_LEN) 10 = some digest :=
    exists_hashData_iff.mpr ⟨by decide, by decide, length_decodedSalt⟩
  refine ⟨short ++ "!", short, hash, by decide, hhash, ?_⟩
  apply (verifyPassword_eq_true_iff (fun _ _ _ _ => beq_iff_eq) readSalt_salt hhash).mpr
  exact ⟨not_traps_salt (by decide), digest, digest, hdigest,
    (hashData_of_sameKey hkey).symm.trans hdigest, rfl⟩

end Pindex.BCryptSwift
