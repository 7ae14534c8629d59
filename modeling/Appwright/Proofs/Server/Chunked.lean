import Appwright.Proofs.Run
import Appwright.Proofs.Text
import Appwright.Server.Chunked
import Mathlib.Data.Nat.Digits.Defs

/-!
# Chunked bodies and their encodings

A body can be sent in chunks in many ways: it can be cut anywhere, sizes have several spellings, and
extensions, trailers and two kinds of line ends may come in. `Encodes` is the relation between the
chunks and the bytes that are sent. Whatever way is taken, reading gives the chunks put together and
stops behind the last line (`read_encoded`). A body that is read, from whatever bytes, is within the
limit, and so is the data that is taken for it, unless a size is below zero
(`taken_within_unless_negative`).
-/

namespace Appwright.Server.Chunked

/-! ## What is sent -/

/-- The bytes that stand for hexadecimal digits, with their values. -/
def hexForms : List (UInt8 × Nat) :=
  (List.range 10).map (fun d => (.ofNat (48 + d), d)) ++
    (List.range 6).flatMap fun d => [(.ofNat (97 + d), 10 + d), (.ofNat (65 + d), 10 + d)]

/-- Bytes spell a number in hexadecimal, in either case and with any zeros in front. -/
structure Spells (digits : List UInt8) (n : Nat) : Prop where
  filled : digits ≠ []
  value : ∃ ds, List.Forall₂ (fun b d => (b, d) ∈ hexForms) digits ds ∧ n = Nat.ofDigits 16 ds.reverse

/-- A line, its end included, that is short enough to be taken at once. -/
inductive Line : (content line : List UInt8) → Prop
  | feed {content : List UInt8} : 10 ∉ content → 13 ∉ content → content.length < lineLimit →
    Line content (content ++ [10])
  | both {content : List UInt8} : 10 ∉ content → 13 ∉ content → content.length + 1 < lineLimit →
    Line content (content ++ [13, 10])

/-- A line says that so many bytes follow. An extension is empty or starts with a semicolon. -/
def Announces (n : Nat) (line : List UInt8) : Prop :=
  ∃ digits extension, Spells digits n ∧ (∀ b ∈ extension.head?, b = 59) ∧
    Line (digits ++ extension) line

inductive Encodes : (chunks : List (List UInt8)) → (sent : List UInt8) → Prop
  | finish {line ending : List UInt8} {trailers : List (List UInt8)} : Announces 0 line →
    (∀ t ∈ trailers, ∃ content, content ≠ [] ∧ Line content t) → Line [] ending →
    Encodes [] (line ++ trailers.flatten ++ ending)
  | chunk {line bytes ending sent : List UInt8} {chunks : List (List UInt8)} :
    Announces bytes.length line → bytes ≠ [] → Line [] ending → Encodes chunks sent →
    Encodes (bytes :: chunks) (line ++ bytes ++ ending ++ sent)

/-! ## Lines -/

theorem takeLine_append {content : List UInt8} {n : Nat} (hf : 10 ∉ content) (hs : content.length < n)
    (rest : List UInt8) : takeLine n (content ++ 10 :: rest) = (content ++ [10], rest) := by
  induction content generalizing n with
  | nil =>
    obtain ⟨n, rfl⟩ := Nat.exists_eq_succ_of_ne_zero (Nat.ne_of_gt hs)
    rfl
  | cons b content ih =>
    obtain ⟨n, rfl⟩ := Nat.exists_eq_succ_of_ne_zero (Nat.ne_zero_of_lt hs)
    rw [List.mem_cons, not_or] at hf
    have ho : ¬ (b == 10) := by simpa using Ne.symm hf.1
    rw [List.cons_append, takeLine, if_neg ho, ih hf.2 (Nat.lt_of_succ_lt_succ hs)]
    rfl

variable {content line bytes rest sent digits ending : List UInt8} {ds : List Nat}
  {n fuel got : Nat} {tls : List (List UInt8)} {most : Int}

theorem Line.takeLine_eq (h : Line content line) (rest : List UInt8) :
    takeLine lineLimit (line ++ rest) = (line, rest) := by
  cases h with
  | feed hf _ hs =>
    rw [List.append_assoc]
    exact takeLine_append hf hs rest
  | both hf _ hs =>
    have hk : 10 ∉ content ++ [13] := by simpa using hf
    have ht := takeLine_append hk (by simpa using hs) rest
    simpa using ht

theorem Line.ne_nil (h : Line content line) : line ≠ [] := by
  cases h <;> simp

theorem Line.afterChunk_eq (h : Line [] line) (rest : List UInt8) :
    afterChunk (line ++ rest) = .ok rest := by
  cases h <;> rfl

theorem Line.eq_end_iff (h : Line content line) :
    (line == [13, 10] || line == [10] || line.isEmpty) ↔ content = [] := by
  cases h with
  | feed _ hf _ =>
    cases content with
    | nil => simp
    | cons b content =>
      rw [List.mem_cons, not_or] at hf
      cases content <;> simp [Ne.symm hf.1]
  | both _ hf _ =>
    cases content with
    | nil => simp
    | cons b content => cases content <;> simp

/-! ## Sizes -/

theorem digit_facts : ∀ p ∈ hexForms, isBlankByte p.1 = false ∧ p.1 ≠ 59 ∧ p.1 < 128 ∧
    Text.isBlank (Char.ofNat p.1.toNat) = false ∧ Text.hexValue? (Char.ofNat p.1.toNat) = some p.2 ∧
    Char.ofNat p.1.toNat ∉ ['_', '-', '+', 'x', 'X'] := by
  decide

theorem hexDigits?_eq (hf : List.Forall₂ (fun b d => (b, d) ∈ hexForms) digits ds)
    {afterDigit : Bool} (some : afterDigit ∨ digits ≠ []) (v : Nat) :
    hexDigits? afterDigit v (digits.map fun b => Char.ofNat b.toNat) =
      .some (Nat.ofDigits 16 ds.reverse + 16 ^ ds.length * v) := by
  induction hf generalizing afterDigit v with
  | nil => simp [hexDigits?, some.resolve_right (fun none => none rfl)]
  | @cons b d digits ds hfo _ ih =>
    obtain ⟨-, -, -, -, hr, ho⟩ := digit_facts _ hfo
    rw [List.map_cons, hexDigits?, hr]
    · change hexDigits? true (16 * v + d) _ = _
      rw [ih (.inl rfl), List.reverse_cons, Nat.ofDigits_append, List.length_reverse,
        Nat.ofDigits_singleton, List.length_cons]
      congr 1
      ring
    · exact fun hs => ho (by simp [hs])

theorem readHex?_of_plain {cs : List Char} (hso : ∀ c ∈ cs, Text.isBlank c = false)
    (hp : ∀ c ∈ cs, c ∉ ['-', '+', 'x', 'X']) :
    readHex? (String.ofList cs) = (hexDigits? false 0 cs).map Int.ofNat := by
  rw [readHex?, Text.trim_of_solid hso, String.toList_ofList]
  split
  next neg digits hs =>
    obtain ⟨rfl, rfl⟩ : neg = false ∧ digits = cs := by
      split at hs
      · simp at hp
      · simp at hp
      · cases hs
        exact ⟨rfl, rfl⟩
    split
    case h_5 =>
      dsimp only
      cases hexDigits? false 0 digits <;> rfl
    all_goals simp at hp

theorem Spells.facts (h : Spells digits n) : ∀ b ∈ digits, isBlankByte b = false ∧ b ≠ 59 ∧ b < 128 ∧
    Text.isBlank (Char.ofNat b.toNat) = false ∧ Char.ofNat b.toNat ∉ ['_', '-', '+', 'x', 'X'] := by
  obtain ⟨-, ds, hf, -⟩ := h
  intro b mem
  obtain ⟨d, -, hfo⟩ := exists_of_mem_left hf mem
  obtain ⟨hs, ho, ha, hv, -, hp⟩ := digit_facts _ hfo
  exact ⟨hs, ho, ha, hv, hp⟩

theorem readHex?_eq (h : Spells digits n) :
    readHex? (String.ofList (digits.map fun b => Char.ofNat b.toNat)) = some (n : Int) := by
  have hf := h.facts
  obtain ⟨hfi, ds, hfo, rfl⟩ := h
  have hs : ∀ c ∈ digits.map fun b => Char.ofNat b.toNat, Text.isBlank c = false := by
    rw [List.forall_mem_map]
    exact fun b mem => (hf b mem).2.2.2.1
  have hp : ∀ c ∈ digits.map fun b => Char.ofNat b.toNat, c ∉ ['-', '+', 'x', 'X'] := by
    rw [List.forall_mem_map]
    exact fun b mem hm => (hf b mem).2.2.2.2 (List.mem_cons_of_mem _ hm)
  rw [readHex?_of_plain hs hp, hexDigits?_eq hfo (.inr hfi), Nat.mul_zero, Nat.add_zero]
  rfl

theorem sizeOf?_of_announces {line : List UInt8} (h : Announces n line) : sizeOf? line = some (n : Int) := by
  obtain ⟨digits, ext, hs, ho, he⟩ := h
  have hf := hs.facts
  obtain ⟨ending, rfl, hb⟩ : ∃ ending, line = digits ++ (ext ++ ending) ∧
      ∀ b ∈ ending, isBlankByte b := by
    cases he with
    | feed => exact ⟨[10], by simp, by decide +kernel⟩
    | both => exact ⟨[13, 10], by simp, by decide +kernel⟩
  have hfr : (digits ++ (ext ++ ending)).dropWhile isBlankByte = digits ++ (ext ++ ending) := by
    obtain ⟨b, rest, rfl⟩ := List.exists_cons_of_ne_nil hs.filled
    exact List.dropWhile_cons_of_neg (by simp [hf b])
  -- What is left of the line after the digits is nothing, or starts with a semicolon.
  have hba : (Text.dropLastWhile isBlankByte (ext ++ ending)).takeWhile (· != 59) = [] := by
    cases ext with
    | nil =>
      rw [List.nil_append, ← List.nil_append ending, Text.dropLastWhile_append [] hb]
      rfl
    | cons b ext =>
      obtain rfl : b = 59 := ho b rfl
      have hk : Text.dropLastWhile isBlankByte ([59] ++ (ext ++ ending)) =
          [59] ++ Text.dropLastWhile isBlankByte (ext ++ ending) :=
        Text.dropLastWhile_append_left (by decide +kernel) _
      rw [List.cons_append, ← List.singleton_append, hk]
      rfl
  have hd : (strip (digits ++ (ext ++ ending))).takeWhile (· != 59) = digits := by
    rw [strip, hfr, Text.dropLastWhile_append_left fun b mem => (hf b mem).1,
      List.takeWhile_append_of_pos fun b mem => by simpa using (hf b mem).2.1, hba, List.append_nil]
  rw [sizeOf?, hd]
  rw [if_pos (by simpa using fun b mem => (hf b mem).2.2.1), readHex?_eq hs]

/-! ## Streams -/

theorem skipTrailers_eq
    (hea : ∀ t ∈ tls, ∃ content, content ≠ [] ∧ Line content t) (hen : Line [] ending)
    (he : tls.length < fuel) (rest : List UInt8) :
    skipTrailers fuel (tls.flatten ++ ending ++ rest) = rest := by
  obtain ⟨fuel, rfl⟩ := Nat.exists_eq_succ_of_ne_zero (Nat.ne_zero_of_lt he)
  induction tls generalizing fuel with
  | nil =>
    rw [List.flatten_nil, List.nil_append, skipTrailers, hen.takeLine_eq]
    exact if_pos (hen.eq_end_iff.2 rfl)
  | cons t tls ih =>
    rw [List.forall_mem_cons] at hea
    obtain ⟨⟨content, hf, line⟩, hea⟩ := hea
    obtain ⟨fuel, rfl⟩ := Nat.exists_eq_succ_of_ne_zero (Nat.ne_zero_of_lt (Nat.lt_of_succ_lt_succ he))
    rw [List.flatten_cons, List.append_assoc, List.append_assoc, skipTrailers, line.takeLine_eq]
    dsimp only
    rw [if_neg (mt line.eq_end_iff.1 hf), ← List.append_assoc]
    exact ih hea fuel (Nat.lt_of_succ_lt_succ he)

theorem length_le_flatten {ls : List (List UInt8)} (hf : ∀ l ∈ ls, l ≠ []) :
    ls.length ≤ ls.flatten.length := by
  induction ls with
  | nil => exact Nat.le_refl _
  | cons l ls ih =>
    rw [List.forall_mem_cons] at hf
    have one := List.length_pos_iff.2 hf.1
    have hm := ih hf.2
    simp only [List.flatten_cons, List.length_append, List.length_cons]
    omega

theorem Announces.takeLine_eq (h : Announces n line) (rest : List UInt8) :
    takeLine lineLimit (line ++ rest) = (line, rest) ∧ line ≠ [] := by
  obtain ⟨digits, ext, -, -, he⟩ := h
  exact ⟨he.takeLine_eq rest, he.ne_nil⟩

theorem readChunk_chunk (hs : Announces bytes.length line)
    (hf : bytes ≠ []) (he : Line [] ending) (hw : (got + bytes.length : Int) ≤ most) (rest : List UInt8) :
    readChunk most got (line ++ bytes ++ ending ++ rest) = .chunk bytes rest := by
  obtain ⟨ht, some⟩ := hs.takeLine_eq (bytes ++ (ending ++ rest))
  obtain ⟨b, more, rfl⟩ := List.exists_cons_of_ne_nil some
  have hp : (bytes.length : Int) ≠ 0 := by simpa using hf
  rw [List.append_assoc, List.append_assoc, readChunk, ht]
  dsimp only
  rw [sizeOf?_of_announces hs]
  dsimp only
  rw [if_neg hp, if_neg (Int.not_lt.2 hw), if_neg (by omega), Int.toNat_natCast,
    List.take_left, if_neg (Nat.lt_irrefl _), List.drop_left, he.afterChunk_eq]

theorem readChunk_finish
    (hs : Announces 0 line) (hea : ∀ t ∈ tls, ∃ content, content ≠ [] ∧ Line content t)
    (hen : Line [] ending) (rest : List UInt8) :
    readChunk most got (line ++ tls.flatten ++ ending ++ rest) = .finish rest := by
  obtain ⟨ht, some⟩ := hs.takeLine_eq (tls.flatten ++ ending ++ rest)
  obtain ⟨b, more, rfl⟩ := List.exists_cons_of_ne_nil some
  have he : tls.length < (tls.flatten ++ ending ++ rest).length + 1 := by
    have hl := length_le_flatten fun t mem => (hea t mem).elim fun _ line => line.2.ne_nil
    simp only [List.length_append]
    omega
  rw [List.append_assoc, List.append_assoc, ← List.append_assoc (tls.flatten), readChunk, ht]
  dsimp only
  rw [sizeOf?_of_announces hs]
  dsimp only
  rw [if_pos Int.natCast_zero, skipTrailers_eq hea hen he]

theorem Encodes.length_le {bs : List (List UInt8)} (h : Encodes bs sent) : bs.length ≤ sent.length := by
  induction h with
  | finish => exact Nat.zero_le _
  | chunk _ hf _ _ ih =>
    have one := List.length_pos_iff.2 hf
    simp only [List.length_append, List.length_cons]
    omega

theorem readFrom_encoded {bs : List (List UInt8)} (h : Encodes bs sent)
    (he : bs.length < fuel) (got : List UInt8)
    (hw : (got.length + bs.flatten.length : Int) ≤ most) (rest : List UInt8) :
    readFrom most fuel got (sent ++ rest) =
      ⟨.ok (got ++ bs.flatten, rest), got.length + bs.flatten.length⟩ := by
  obtain ⟨fuel, rfl⟩ := Nat.exists_eq_succ_of_ne_zero (Nat.ne_zero_of_lt he)
  induction h generalizing fuel got with
  | finish hs hea hen =>
    rw [readFrom, readChunk_finish hs hea hen]
    simp
  | @chunk line bytes ending sent bs hs hf hen _ ih =>
    rw [List.flatten_cons, List.length_append] at hw ⊢
    obtain ⟨fuel, rfl⟩ := Nat.exists_eq_succ_of_ne_zero (Nat.ne_zero_of_lt (Nat.lt_of_succ_lt_succ he))
    rw [readFrom, List.append_assoc _ sent, readChunk_chunk hs hf hen (by omega)]
    dsimp only
    have ha : ((got ++ bytes).length + bs.flatten.length : Int) ≤ most := by
      rw [List.length_append]
      omega
    rw [ih (got ++ bytes) ha fuel (Nat.lt_of_succ_lt_succ he)]
    simp [Nat.add_assoc]

/-! ## The limit -/

theorem append_takeLine (n : Nat) (bs : List UInt8) : (takeLine n bs).1 ++ (takeLine n bs).2 = bs := by
  induction n generalizing bs with
  | zero => rfl
  | succ n ih =>
    cases bs with
    | nil => rfl
    | cons b bs =>
      rw [takeLine]
      split
      · rfl
      · exact congrArg (b :: ·) (ih bs)

theorem exists_of_afterChunk {bs : List UInt8} (h : afterChunk bs = .ok rest) :
    ∃ pre, bs = pre ++ rest := by
  unfold afterChunk at h
  split at h
  · cases h
    exact ⟨[13, 10], rfl⟩
  · cases h
    exact ⟨[10], rfl⟩
  · cases h

/-- The data that is taken for a chunk is within the limit, unless its size is below zero. -/
theorem readChunk_cases (most : Int) (got : Nat) (bs : List UInt8) :
    (∃ rest, readChunk most got bs = .finish rest) ∨
    (∃ pre bytes rest, bs = pre ++ rest ∧ (got + bytes.length : Int) ≤ most ∧
      readChunk most got bs = .chunk bytes rest) ∨
    (∃ e, ∃ taken : Nat, (taken = 0 ∨ (got + taken : Int) ≤ most) ∧
      readChunk most got bs = .wrong e taken) ∨
    ∃ line rest size, bs = line ++ rest ∧ sizeOf? line = some size ∧ size < 0 ∧
      readChunk most got bs = .wrong .encoding rest.length := by
  have hp := append_takeLine lineLimit bs
  unfold readChunk
  split
  · exact .inr (.inr (.inl ⟨_, 0, .inl rfl, rfl⟩))
  next line rest _ taken =>
    rw [taken] at hp
    cases hf : sizeOf? line with
    | none => exact .inr (.inr (.inl ⟨_, 0, .inl rfl, rfl⟩))
    | some size =>
      dsimp only
      split
      · exact .inl ⟨_, rfl⟩
      split
      · exact .inr (.inr (.inl ⟨_, 0, .inl rfl, rfl⟩))
      split
      next hb => exact .inr (.inr (.inr ⟨line, rest, size, hp.symm, hf, hb, rfl⟩))
      next hl _ =>
        have few : (got + (rest.take size.toNat).length : Int) ≤ most := by
          rw [List.length_take]
          omega
        split
        · exact .inr (.inr (.inl ⟨_, _, .inr few, rfl⟩))
        split
        next rest' ha =>
          obtain ⟨pre, hs⟩ := exists_of_afterChunk ha
          refine .inr (.inl ⟨line ++ (rest.take size.toNat ++ pre), _, rest', ?_, few, rfl⟩)
          rw [← hp, List.append_assoc, List.append_assoc, ← hs, List.take_append_drop]
        · exact .inr (.inr (.inl ⟨_, _, .inr few, rfl⟩))

theorem within_of_readFrom {got bs body : List UInt8}
    (h : (readFrom most fuel got bs).body = .ok (body, rest))
    (hw : got = [] ∨ (got.length : Int) ≤ most) : body = [] ∨ (body.length : Int) ≤ most := by
  induction fuel generalizing got bs with
  | zero => cases h
  | succ fuel ih =>
    rw [readFrom] at h
    rcases readChunk_cases most got.length bs with ⟨_, hs⟩ | ⟨_, bytes, _, -, few, hs⟩ |
      ⟨_, _, -, hs⟩ | ⟨_, _, _, -, -, -, hs⟩
    all_goals rw [hs] at h
    · cases h
      exact hw
    · refine ih h (.inr ?_)
      rwa [List.length_append, Nat.cast_add]
    all_goals cases h

/-- However a body is cut and written, reading gives the chunks put together and leaves what follows
the last line. No body that is read has more bytes than are allowed, except that an empty one passes
where less than none are. -/
theorem read_encoded (most : Int) :
    (∀ chunks sent rest, Encodes chunks sent → (chunks.flatten.length : Int) ≤ most →
      read most (sent ++ rest) = ⟨.ok (chunks.flatten, rest), chunks.flatten.length⟩) ∧
    ∀ stream body rest, (read most stream).body = .ok (body, rest) →
      body = [] ∨ (body.length : Int) ≤ most := by
  constructor
  · intro chunks sent rest encoded within
    have enough : chunks.length < (sent ++ rest).length + 1 := by
      have chunked := encoded.length_le
      rw [List.length_append]
      omega
    have whole := readFrom_encoded encoded enough [] (by simpa using within) rest
    rwa [List.nil_append, List.length_nil, Nat.zero_add] at whole
  · intro stream body rest h
    exact within_of_readFrom h (.inl rfl)

theorem encodes_hi : Encodes [[104, 105]]
    ([48, 50, 59, 120, 13, 10] ++ [104, 105] ++ [10] ++ ([48, 10] ++ [[97, 58, 13, 10]].flatten ++ [13, 10])) := by
  have two : Spells [48, 50] 2 := ⟨by decide, [0, 2], .cons (by decide) (.cons (by decide) .nil), rfl⟩
  have none : Spells [48] 0 := ⟨by decide, [0], .cons (by decide) .nil, rfl⟩
  refine .chunk ⟨[48, 50], [59, 120], two, by simp, .both (by decide) (by decide) (by decide)⟩
    (by decide) (.feed (by decide) (by decide) (by decide)) ?_
  refine .finish ⟨[48], [], none, by simp, .feed (by decide) (by decide) (by decide)⟩
    (List.forall_mem_singleton.2 ⟨[97, 58], by decide, .both (by decide) (by decide) (by decide)⟩)
    (.both (by decide) (by decide) (by decide))

theorem read_hi : Encodes [[104, 105]] ([48, 50, 59, 120, 13, 10] ++ [104, 105] ++ [10] ++
      ([48, 10] ++ [[97, 58, 13, 10]].flatten ++ [13, 10])) ∧
    read 2 ([48, 50, 59, 120, 13, 10] ++ [104, 105] ++ [10] ++
      ([48, 10] ++ [[97, 58, 13, 10]].flatten ++ [13, 10]) ++ [71, 69, 84]) =
        ⟨.ok ([104, 105], [71, 69, 84]), 2⟩ :=
  ⟨encodes_hi, (read_encoded 2).1 _ _ _ encodes_hi (by decide)⟩

/-- Where less than no bytes are allowed, a body of none is read all the same. -/
theorem read_empty_below_zero :
    (read (-1) [48, 10, 10]).body = .ok ([], []) := by
  decide

/-- The bytes of a stream that are taken as data are within the limit, or a line in it announces a
size below zero: then all that follows the line is taken too. -/
def WithinUnlessNegative (most : Int) (stream : List UInt8) (o : Outcome) : Prop :=
  (o.taken : Int) ≤ max 0 most ∨
    ∃ front line rest size, ∃ got : Nat, stream = front ++ (line ++ rest) ∧ sizeOf? line = some size ∧
      size < 0 ∧ (got : Int) ≤ max 0 most ∧ o.body.toOption = none ∧ o.taken = got + rest.length

theorem taken_readFrom {got bs : List UInt8}
    (hw : (got.length : Int) ≤ max 0 most) : WithinUnlessNegative most bs (readFrom most fuel got bs) := by
  induction fuel generalizing got bs with
  | zero => exact .inl hw
  | succ fuel ih =>
    rw [readFrom]
    rcases readChunk_cases most got.length bs with ⟨_, hs⟩ | ⟨pre, bytes, rest, rfl, few, hs⟩ |
      ⟨_, taken, few, hs⟩ | ⟨line, rest, size, rfl, hf, hb, hs⟩
    all_goals rw [hs]
    · exact .inl hw
    · have ha : ((got ++ bytes).length : Int) ≤ max 0 most := by
        rw [List.length_append]
        omega
      rcases @ih _ rest ha with hl | ⟨more, line, rest, size, total, rfl, hf⟩
      · exact .inl hl
      · exact .inr ⟨pre ++ more, line, rest, size, total, by rw [List.append_assoc], hf⟩
    · left
      dsimp only
      omega
    · exact .inr ⟨[], line, rest, size, got.length, rfl, hf, hb, hw, rfl, rfl⟩

theorem taken_within_unless_negative (most : Int) (stream : List UInt8) :
    WithinUnlessNegative most stream (read most stream) :=
  taken_readFrom (Int.le_max_left 0 most)

/-- A size below zero passes for one that is within the limit. -/
theorem negative_size_takes_all : (read 4 ([45, 49, 10] ++ List.replicate 8 97)).taken = 8 := by
  decide

end Appwright.Server.Chunked
