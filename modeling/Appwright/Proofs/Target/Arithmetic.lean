import Appwright.Proofs.Run
import Appwright.Proofs.Sexpr.Printing
import Appwright.Proofs.Text
import Appwright.Target.Eval
import Mathlib.Algebra.Ring.Int.Parity

/-!
# Arithmetic in generated source

Sums, differences, products and powers of whole numbers are written with parentheses around every
operation and around nothing else. So the minus sign of a numeral is left without any, and where the
numeral is the base of a power the sign binds less tightly than the power: what was meant as the
square of `-2` is read as the negative of a square.

`wordsFrom_text` says which words an expression is written in, `expr?_tokens` which expression is
read from them, and `evalExpr_expr` what that comes to: its `reading`. Every part of an expression
is read as it is meant exactly if no negative numeral is raised to an even power
(`forall_parts_iff_careful`). Brackets are opened as deep as operations are nested
(`nesting_tokens`), and source with too many of them is not read at all.
-/

namespace Appwright

open List Text Decimal Sexpr Nat

namespace Target

inductive Operation where
  | add | sub | mul
deriving DecidableEq, Repr

namespace Operation

def sign : Operation → String
  | add => "+"
  | sub => "-"
  | mul => "*"

def binaryOp : Operation → BinaryOp
  | add => .add
  | sub => .sub
  | mul => .mul

def level : Operation → Nat
  | add => 4
  | sub => 4
  | mul => 5

def apply : Operation → Int → Int → Int
  | add => (· + ·)
  | sub => (· - ·)
  | mul => (· * ·)

end Operation

/-- Arithmetic over whole numbers. The exponent of a power is a numeral without a sign. -/
inductive Arith where
  | lit (n : Int)
  | op (o : Operation) (left right : Arith)
  | pow (base : Arith) (exponent : Nat)
deriving DecidableEq, Repr

namespace Arith

def value : Arith → Int
  | lit n => n
  | op o l r => o.apply l.value r.value
  | pow b k => b.value ^ k

def isSigned : Arith → Bool
  | lit n => decide (n < 0)
  | _ => false

/-- What an expression comes to as it is read: the sign of a numeral stands before its power. -/
def reading : Arith → Int
  | lit n => n
  | op o l r => o.apply l.reading r.reading
  | pow b k => if b.isSigned then -(-b.reading) ^ k else b.reading ^ k

def height : Arith → Nat
  | lit _ => 0
  | op _ l r => max l.height r.height + 1
  | pow b _ => b.height + 1

def numerals : Arith → List Int
  | lit n => [n]
  | op _ l r => l.numerals ++ r.numerals
  | pow b k => b.numerals ++ [(k : Int)]

def text : Arith → String
  | lit n => ofInt n
  | op o l r => "(" ++ l.text ++ " " ++ o.sign ++ " " ++ r.text ++ ")"
  | pow b k => "(" ++ b.text ++ " " ++ "**" ++ " " ++ ofNat k ++ ")"

def signed (n : Int) (t : Token) : List Token :=
  if n < 0 then [.op "-", t] else [t]

def tokens : Arith → List Token
  | lit n => signed n (.int n.natAbs)
  | op o l r => .op "(" :: (l.tokens ++ .op o.sign :: (r.tokens ++ [.op ")"]))
  | pow b k => .op "(" :: (b.tokens ++ [.op "**", .int k, .op ")"])

def expr : Arith → Expr
  | lit n => if n < 0 then .neg (.int n.natAbs) else .int n.natAbs
  | op o l r => .binary o.binaryOp l.expr r.expr
  | pow b k =>
    if b.isSigned then .neg (.binary .pow (.int b.value.natAbs) (.int k))
    else .binary .pow b.expr (.int k)

/-- An expression that can be written and read: its operations are not nested too deep, and its
numerals have texts. -/
def Writable (a : Arith) : Prop :=
  a.height ≤ maxNesting ∧ ∀ n ∈ a.numerals, hasText n = true

instance (a : Arith) : Decidable a.Writable :=
  inferInstanceAs (Decidable (_ ∧ _))

/-! ## Meaning -/

def parts : Arith → List Arith
  | lit n => [lit n]
  | op o l r => op o l r :: (l.parts ++ r.parts)
  | pow b k => pow b k :: b.parts

def Careful : Arith → Prop
  | lit _ => True
  | op _ l r => l.Careful ∧ r.Careful
  | pow b k => b.Careful ∧ (b.isSigned = true → Odd k)

theorem mem_parts (a : Arith) : a ∈ a.parts := by
  cases a <;> simp [parts]

theorem exists_lit_of_isSigned {a : Arith} (hs : a.isSigned) : ∃ n < 0, a = lit n := by
  cases a with
  | lit n => exact ⟨n, of_decide_eq_true hs, rfl⟩
  | op | pow => simp [isSigned] at hs

theorem neg_pow_eq_iff {n : Int} (hn : n < 0) (k : Nat) : -(-n) ^ k = n ^ k ↔ Odd k := by
  constructor
  · intro hs
    rw [← not_even_iff_odd]
    intro he
    rw [he.neg_pow] at hs
    have hno : n ^ k ≠ 0 := pow_ne_zero k (by omega)
    omega
  · intro odd
    rw [odd.neg_pow, neg_neg]

theorem forall_parts_iff_careful (a : Arith) :
    (∀ part ∈ a.parts, part.reading = part.value) ↔ a.Careful := by
  induction a with
  | lit n => simp [parts, Careful, reading, value]
  | op o l r left right =>
    constructor
    · intro all
      exact ⟨left.1 fun part hp => all part (by simp [parts, hp]),
        right.1 fun part hp => all part (by simp [parts, hp])⟩
    · rintro ⟨hca, hc⟩ part hp
      rw [parts, mem_cons, mem_append] at hp
      rcases hp with rfl | hp | hp
      · rw [reading, value, left.2 hca l l.mem_parts, right.2 hc r r.mem_parts]
      · exact left.2 hca part hp
      · exact right.2 hc part hp
  | pow b k hb =>
    simp only [parts, mem_cons, forall_eq_or_imp, hb, Careful]
    rw [and_comm]
    refine and_congr_right fun hcar => ?_
    have hsa : b.reading = b.value := hb.2 hcar b b.mem_parts
    cases hs : b.isSigned with
    | false => simp [reading, value, hs, hsa]
    | true =>
      obtain ⟨n, hn, rfl⟩ := exists_lit_of_isSigned hs
      simp only [reading, value, hs, if_true, neg_pow_eq_iff hn, true_imp_iff]

end Arith

/-! ## Words -/

theorem wordsFrom_eq_drop (n : Nat) (cs : List Char) : wordsFrom n cs = wordsFrom 0 (cs.drop n) := by
  induction n generalizing cs with
  | zero => rfl
  | succ n ih =>
    cases cs with
    | nil => rfl
    | cons c cs => exact ih cs

variable {n f : Nat} {t : Token} {rest ts : List Token} (o : Operation) (cs : List Char) {e : Expr}

theorem wordsFrom_front {c : Char} {cs : List Char} (hv : c ≠ ' ' ∧ c ≠ '\t')
    (hw : front c cs = (t, n + 1)) : wordsFrom 0 (c :: cs) = t :: wordsFrom 0 (cs.drop n) := by
  have hb : ¬ (c == ' ' || c == '\t') := by simp [hv]
  rw [wordsFrom, if_neg hb, hw]
  exact congrArg (t :: ·) (wordsFrom_eq_drop n cs)

theorem wordsFrom_blank : wordsFrom 0 (' ' :: cs) = wordsFrom 0 cs := rfl

/-- A bracket or sign that begins no operator of two characters is a word of its own. -/
theorem wordsFrom_sign {c : Char} (hs : c ∈ ['(', ')', '+', '-']) (cs : List Char) :
    wordsFrom 0 (c :: cs) = .op (String.singleton c) :: wordsFrom 0 cs := by
  simp only [mem_cons, not_mem_nil, or_false] at hs
  refine wordsFrom_front (n := 0) ?_ ?_
  · rcases hs with rfl | rfl | rfl | rfl <;> decide
  · have hd : c.isDigit = false := by rcases hs with rfl | rfl | rfl | rfl <;> decide
    have hw : isWord c = false := by rcases hs with rfl | rfl | rfl | rfl <;> decide
    have hq : ¬ (c = '\'' ∨ c = '"') := by rcases hs with rfl | rfl | rfl | rfl <;> decide
    have ha : c :: cs.take 1 ∉ pairs := by
      rcases hs with rfl | rfl | rfl | rfl <;> cases cs <;> simp [pairs]
    unfold front
    simp [hd, hw, hq, ha]

theorem wordsFrom_star : wordsFrom 0 ('*' :: ' ' :: cs) = .op "*" :: wordsFrom 0 cs := rfl

theorem wordsFrom_stars : wordsFrom 0 ('*' :: '*' :: ' ' :: cs) = .op "**" :: wordsFrom 0 cs := rfl

def EndsOperand (rest : List Char) : Prop :=
  ∀ c ∈ rest.head?, c = ' ' ∨ c = ')'

theorem front_digits {d : Char} {ds rest : List Char} (hd : ∀ c ∈ d :: ds, c.isDigit)
    (he : EndsOperand rest) : front d (ds ++ rest) = (.int (decimalOf (d :: ds)), ds.length + 1) := by
  have hw : (d :: (ds ++ rest)).takeWhile Char.isDigit = d :: ds := by
    rw [← cons_append, takeWhile_append_of_pos hd]
    cases rest with
    | nil => simp
    | cons c rest => rcases he c rfl with rfl | rfl <;> simp
  have ht : (d :: (ds ++ rest)).drop (d :: ds).length = rest := drop_left
  unfold front numberFront
  rw [if_pos (hd d mem_cons_self), hw]
  dsimp only
  rw [ht]
  cases rest with
  | nil => rfl
  | cons c rest => rcases he c rfl with rfl | rfl <;> rfl

theorem wordsFrom_toDigits (n : Nat) {rest : List Char} (he : EndsOperand rest) :
    wordsFrom 0 (toDigits 10 n ++ rest) = .int n :: wordsFrom 0 rest := by
  have hd (c : Char) (hc : c ∈ toDigits 10 n) : c.isDigit :=
    isDigit_of_mem_toDigits (by decide) (by decide) hc
  cases hs : toDigits 10 n with
  | nil => exact absurd hs toDigits_ne_nil
  | cons d ds =>
    rw [hs] at hd
    have hv : d ≠ ' ' ∧ d ≠ '\t' := by
      constructor <;> (rintro rfl; exact absurd (hd _ mem_cons_self) (by decide))
    rw [cons_append, wordsFrom_front hv (front_digits hd he), drop_left, ← hs, decimalOf_toDigits]

theorem wordsFrom_ofInt (n : Int) {rest : List Char} (he : EndsOperand rest) :
    wordsFrom 0 ((ofInt n).toList ++ rest) = Arith.signed n (.int n.natAbs) ++ wordsFrom 0 rest := by
  rw [toList_ofInt, digitsOf, Arith.signed]
  by_cases hn : n < 0
  · rw [decide_eq_true hn, if_pos hn, signChars, if_pos rfl, append_assoc,
      singleton_append, wordsFrom_sign (by decide), wordsFrom_toDigits _ he]
    rfl
  · rw [decide_eq_false hn, if_neg hn, signChars]
    exact wordsFrom_toDigits _ he

namespace Arith
variable (a : Arith)

theorem wordsFrom_text {rest : List Char} (he : EndsOperand rest) :
    wordsFrom 0 (a.text.toList ++ rest) = a.tokens ++ wordsFrom 0 rest := by
  have hb (more : List Char) : EndsOperand (' ' :: more) := by simp [EndsOperand]
  have hc (more : List Char) : EndsOperand (')' :: more) := by simp [EndsOperand]
  induction a generalizing rest with
  | lit n => exact wordsFrom_ofInt n he
  | op o l r left right =>
    have hs : (op o l r).text.toList ++ rest = '(' :: (l.text.toList ++ ' ' ::
          (o.sign.toList ++ ' ' :: (r.text.toList ++ ')' :: rest))) := by
      simp [text]
    have hsi (more : List Char) : wordsFrom 0 (o.sign.toList ++ ' ' :: more) =
        .op o.sign :: wordsFrom 0 more := by
      cases o with
      | add | sub => exact wordsFrom_sign (by decide) _
      | mul => exact wordsFrom_star more
    rw [hs, wordsFrom_sign (by decide), left (hb _), wordsFrom_blank, hsi, right (hc _),
      wordsFrom_sign (by decide), tokens]
    simp
  | pow b k hba =>
    have hs : (pow b k).text.toList ++ rest = '(' :: (b.text.toList ++ ' ' :: '*' :: '*' :: ' ' ::
          (toDigits 10 k ++ ')' :: rest)) := by
      simp [text, ofNat]
    rw [hs, wordsFrom_sign (by decide), hba (hb _), wordsFrom_blank, wordsFrom_stars,
      wordsFrom_toDigits k (hc _), wordsFrom_sign (by decide), tokens]
    simp

theorem lineFeed_not_mem_text : '\n' ∉ a.text.toList := by
  have hd (n : Nat) : '\n' ∉ toDigits 10 n := fun h =>
    absurd (isDigit_of_mem_toDigits (by decide) (by decide) h) (by decide)
  induction a with
  | lit n =>
    rw [text, toList_ofInt, digitsOf, mem_append, not_or]
    refine ⟨?_, hd _⟩
    by_cases hn : n < 0 <;> simp [signChars, hn]
  | op o l r left right =>
    have hs : '\n' ∉ o.sign.toList := by cases o <;> decide
    simp [text, left, right, hs]
  | pow b k hb => simp [text, ofNat, hb, hd]

theorem exists_getLast?_text : ∃ c, a.text.toList.getLast? = some c ∧ isBlank c = false := by
  cases a with
  | lit n =>
    have some : toDigits 10 n.natAbs ≠ [] := toDigits_ne_nil
    have hd := isDigit_of_mem_toDigits (by decide) (by decide) (getLast_mem some)
    refine ⟨_, ?_, isBlank_of_isDigit hd⟩
    rw [text, toList_ofInt, digitsOf, getLast?_append_of_ne_nil _ some, getLast?_eq_some_getLast some]
  | op | pow =>
    refine ⟨')', ?_, by decide⟩
    rw [text, String.toList_append, getLast?_append_of_ne_nil _ (by decide)]
    rfl

end Arith

/-! ## Reading -/

def StartsOperand (ts : List Token) : Prop :=
  ∃ t rest, ts = t :: rest ∧ (t = .op "(" ∨ t = .op "-" ∨ ∃ n, t = .int n)

def Follows (rest : List Token) : Prop :=
  ∀ t ∈ rest.head?, ∃ s ∈ [")", "+", "-", "*", "**"], t = .op s

theorem follows_op {s : String} (hs : s ∈ [")", "+", "-", "*", "**"]) (rest : List Token) :
    Follows (.op s :: rest) := by
  rintro t ⟨⟩
  exact ⟨s, hs, rfl⟩

/-- Words are read as an expression of a level, with any fuel above a bound. -/
def Reads (level bound : Nat) (ts : List Token) (e : Expr) (rest : List Token) : Prop :=
  ∀ fuel, bound ≤ fuel → readAt fuel level ts = some (e, rest)

def ReadsOperand (bound : Nat) (ts : List Token) (e : Expr) (rest : List Token) : Prop :=
  ∀ fuel, bound ≤ fuel → readOperand fuel ts = some (e, rest)

theorem Reads.mono {level m n : Nat} (hr : Reads level m ts e rest) (le : m ≤ n) :
    Reads level n ts e rest :=
  fun fuel he => hr fuel (le.trans he)

theorem ReadsOperand.mono {m n : Nat} (hr : ReadsOperand m ts e rest) (le : m ≤ n) :
    ReadsOperand n ts e rest :=
  fun fuel he => hr fuel (le.trans he)

theorem readAt_succ {level : Nat} (hb : level < 6) (hs : StartsOperand ts) :
    readAt (f + 1) level ts = (readAt f (level + 1) ts).bind fun p => readMore f level p.1 p.2 := by
  obtain ⟨t, rest, rfl, hs⟩ := hs
  rw [readAt]
  · rfl
  · rintro rfl
    omega
  · intro more _ hsa
    cases hsa
    simp at hs
  · intro more _ hsa
    cases hsa
    simp at hs
  · rintro _ rfl _
    omega

theorem operatorAt?_close (level : Nat) (rest : List Token) :
    operatorAt? level (.op ")" :: rest) = none := by
  simp [operatorAt?]

theorem operatorAt?_nil (level : Nat) : operatorAt? level [] = none := by
  simp [operatorAt?]

theorem Operation.operatorAt?_sign (rest : List Token) :
    operatorAt? o.level (.op o.sign :: rest) = some (o.binaryOp, rest) := by
  cases o <;> rfl

theorem Operation.level_le : o.level ≤ 5 := by
  cases o <;> decide

theorem Operation.operatorAt?_tighter {level : Nat} (ht : o.level < level) (hb : level < 6)
    (rest : List Token) : operatorAt? level (.op o.sign :: rest) = none := by
  cases o with
  | mul =>
    have : 5 < level := ht
    omega
  | add | sub =>
    have : 4 < level := ht
    obtain rfl : level = 5 := by omega
    rfl

/-- An expression of a level is one of each looser level, up to the first whose operator follows. -/
theorem Reads.looser {level k n : Nat} (ht : Reads (level + k) (n + 1) ts e rest)
    (top : level + k ≤ 6) (hs : StartsOperand ts)
    (hen : ∀ l, level ≤ l → l < level + k → operatorAt? l rest = none) :
    Reads level (n + k + 1) ts e rest := by
  induction k generalizing level with
  | zero => exact ht
  | succ k ih =>
    have next : Reads (level + 1) (n + k + 1) ts e rest := by
      refine ih ?_ (by omega) fun l low high => hen l (by omega) (by omega)
      rwa [add_right_comm, add_assoc]
    intro fuel he
    obtain ⟨f, rfl⟩ : ∃ f, fuel = f + 2 := ⟨fuel - 2, by omega⟩
    rw [readAt_succ (by omega) hs, next (f + 1) (by omega)]
    simp [readMore, hen level le_rfl (by omega)]

theorem Reads.operation {o : Operation} {ls rs rest : List Token} {l r : Expr}
    (left : Reads (o.level + 1) n ls l (.op o.sign :: rs)) (right : Reads (o.level + 1) n rs r rest)
    (hs : StartsOperand ls) (hen : operatorAt? o.level rest = none) :
    Reads o.level (n + 3) ls (.binary o.binaryOp l r) rest := by
  intro fuel he
  obtain ⟨f, rfl⟩ : ∃ f, fuel = f + 3 := ⟨fuel - 3, by omega⟩
  have low := o.level_le
  rw [readAt_succ (by omega) hs, left (f + 2) (by omega)]
  simp [readMore, o.operatorAt?_sign, right (f + 1) (by omega), hen]

theorem readTrailers_of_follows (hf : Follows rest) : readTrailers (f + 1) e rest = some (e, rest) := by
  cases rest with
  | nil => rfl
  | cons t rest =>
    obtain ⟨s, hs, rfl⟩ := hf t rfl
    fin_cases hs <;> rfl

theorem readsOperand_int (hf : Follows rest) : ReadsOperand 2 (.int n :: rest) (.int n) rest := by
  intro fuel he
  obtain ⟨f, rfl⟩ : ∃ f, fuel = f + 2 := ⟨fuel - 2, by omega⟩
  exact readTrailers_of_follows hf

theorem readItems_of_readAt (hs : StartsOperand ts) (hi : readAt f 0 ts = some (e, .op ")" :: rest) ) :
    readItems (f + 2) ")" ts = some (([e], false), rest) := by
  have hit : readItem (f + 1) ")" ts = some (([e], false), rest) := by
    rw [readItem, hi]
    rfl
  obtain ⟨t, ts, rfl, rfl | rfl | ⟨n, rfl⟩⟩ := hs
  · exact hit
  · exact hit
  · exact hit

theorem Reads.parens (hi : Reads 0 n ts e (.op ")" :: rest) ) (hs : StartsOperand ts)
    (hf : Follows rest) : ReadsOperand (n + 4) (.op "(" :: ts) e rest := by
  intro fuel he
  obtain ⟨f, rfl⟩ : ∃ f, fuel = f + 4 := ⟨fuel - 4, by omega⟩
  have ha : readAtom (f + 3) (.op "(" :: ts) = some (e, rest) := by
    rw [readAtom, readItems_of_readAt hs (hi f (by omega))]
    rfl
  rw [readOperand, ha]
  exact readTrailers_of_follows hf

theorem readAt_unsigned (hu : t ≠ .op "-") : readAt (f + 1) 6 (t :: ts) = readPower f (t :: ts) := by
  rw [readAt]
  intro rest hs
  cases hs
  exact hu rfl

theorem ReadsOperand.reads (ho : ReadsOperand n (t :: ts) e rest) (hu : t ≠ .op "-")
    (hen : ∀ more, rest ≠ .op "**" :: more) : Reads 6 (n + 2) (t :: ts) e rest := by
  intro fuel he
  obtain ⟨f, rfl⟩ : ∃ f, fuel = f + 2 := ⟨fuel - 2, by omega⟩
  rw [readAt_unsigned hu, readPower, ho f (by omega)]
  dsimp only [Option.bind_eq_bind, Option.bind_some]
  split
  · exact absurd rfl (hen _)
  · rfl

theorem ReadsOperand.raised {n k : Nat}
    (hb : ReadsOperand n (t :: ts) e (.op "**" :: .int k :: rest)) (hu : t ≠ .op "-")
    (hf : Follows rest) (ends : ∀ more, rest ≠ .op "**" :: more) :
    Reads 6 (n + 6) (t :: ts) (.binary .pow e (.int k)) rest := by
  intro fuel hen
  obtain ⟨f, rfl⟩ : ∃ f, fuel = f + 2 := ⟨fuel - 2, by omega⟩
  have he : Reads powerLevel 4 (.int k :: rest) (.int k) rest := (readsOperand_int hf).reads (by simp) ends
  have hp : readPower (f + 1) (t :: ts) =
      (readAt f powerLevel (.int k :: rest)).bind fun p => some (.binary .pow e p.1, p.2) := by
    rw [readPower, hb f (by omega)]
    rfl
  rw [readAt_unsigned hu, hp, he f (by omega)]
  rfl

theorem Reads.neg {n : Nat} {ts rest : List Token} (hr : Reads 6 n ts e rest) :
    Reads 6 (n + 1) (.op "-" :: ts) (.neg e) rest := by
  intro fuel he
  obtain ⟨f, rfl⟩ : ∃ f, fuel = f + 1 := ⟨fuel - 1, by omega⟩
  rw [readAt, hr f (by omega)]
  rfl

namespace Arith

theorem tokens_of_isSigned {a : Arith} (hs : a.isSigned) :
    a.tokens = [.op "-", .int a.value.natAbs] ∧ a.expr = .neg (.int a.value.natAbs) := by
  obtain ⟨n, hn, rfl⟩ := exists_lit_of_isSigned hs
  simp [tokens, Arith.signed, expr, value, hn]

variable {rest : List Token} (a : Arith)

theorem tokens_op_append (o : Operation) (l r : Arith) (rest : List Token) : (op o l r).tokens ++ rest =
      .op "(" :: (l.tokens ++ .op o.sign :: (r.tokens ++ .op ")" :: rest)) := by
  simp [tokens]

theorem tokens_pow_append (b : Arith) (k : Nat) (rest : List Token) : (pow b k).tokens ++ rest =
      .op "(" :: (b.tokens ++ .op "**" :: .int k :: .op ")" :: rest) := by
  simp [tokens]

theorem exists_tokens : ∃ t rest, a.tokens = t :: rest ∧
      (t = .op "(" ∨ (∃ n, t = .int n) ∨ t = .op "-" ∧ a.isSigned) := by
  cases a with
  | lit n =>
    by_cases hn : n < 0
    · have hs : (lit n).isSigned := decide_eq_true hn
      exact ⟨_, _, (tokens_of_isSigned hs).1, .inr (.inr ⟨rfl, hs⟩)⟩
    · exact ⟨.int n.natAbs, [], by rw [tokens, Arith.signed, if_neg hn], .inr (.inl ⟨_, rfl⟩)⟩
  | op | pow => exact ⟨_, _, rfl, .inl rfl⟩

theorem startsOperand_tokens (rest : List Token) : StartsOperand (a.tokens ++ rest) := by
  obtain ⟨t, ts, hs, hst⟩ := a.exists_tokens
  refine ⟨t, ts ++ rest, by rw [hs]; rfl, ?_⟩
  rcases hst with h | h | ⟨h, -⟩
  · exact .inl h
  · exact .inr (.inr h)
  · exact .inr (.inl h)

theorem exists_unsigned {a : Arith} (hu : a.isSigned = false) :
    ∃ t ts, t ≠ .op "-" ∧ a.tokens = t :: ts := by
  obtain ⟨t, ts, hs, hst⟩ := a.exists_tokens
  refine ⟨t, ts, ?_, hs⟩
  rintro rfl
  simp [hu] at hst

theorem reads_of_readsOperand {a : Arith} {n : Nat} (he : 2 ≤ n)
    (ho : a.isSigned = false → ReadsOperand n (a.tokens ++ rest) a.expr rest)
    (hf : Follows rest) (hen : ∀ more, rest ≠ .op "**" :: more) :
    Reads 6 (n + 3) (a.tokens ++ rest) a.expr rest := by
  cases hs : a.isSigned with
  | true =>
    obtain ⟨hsh, hex⟩ := tokens_of_isSigned hs
    have hn : Reads 6 4 (.int a.value.natAbs :: rest) (.int a.value.natAbs) rest :=
      (readsOperand_int hf).reads (by simp) hen
    rw [hsh, hex]
    exact hn.neg.mono (by omega)
  | false =>
    obtain ⟨t, ts, hu, hsh⟩ := exists_unsigned hs
    have ho := ho hs
    rw [hsh] at ho ⊢
    exact (ho.reads hu hen).mono (by omega)

theorem reads_raised {b : Arith} {k n : Nat} (he : 2 ≤ n)
    (ho : b.isSigned = false → ∀ {rest}, Follows rest → ReadsOperand n (b.tokens ++ rest) b.expr rest)
    (hf : Follows rest) (hen : ∀ more, rest ≠ .op "**" :: more) :
    Reads 6 (n + 7) (b.tokens ++ .op "**" :: .int k :: rest) (pow b k).expr rest := by
  have hr : Follows (.op "**" :: .int k :: rest) := follows_op (by decide) _
  cases hs : b.isSigned with
  | true =>
    have hn := (readsOperand_int hr (n := b.value.natAbs)).raised (by simp) hf hen
    rw [(tokens_of_isSigned hs).1, expr, if_pos hs]
    exact hn.neg.mono (by omega)
  | false =>
    obtain ⟨t, ts, hu, hsh⟩ := exists_unsigned hs
    have ho := ho hs hr
    rw [expr, if_neg (by simp [hs])]
    rw [hsh] at ho ⊢
    exact (ho.raised hu hf hen).mono (by omega)

theorem reads_operation {o : Operation} {l r : Arith} {n : Nat} (he : 2 ≤ n)
    (left : l.isSigned = false → ∀ {rest}, Follows rest → ReadsOperand n (l.tokens ++ rest) l.expr rest)
    (right : r.isSigned = false → ∀ {rest}, Follows rest → ReadsOperand n (r.tokens ++ rest) r.expr rest) :
    Reads o.level (n + 7) (l.tokens ++ .op o.sign :: (r.tokens ++ .op ")" :: rest))
      (op o l r).expr (.op ")" :: rest) := by
  have low := o.level_le
  have top : o.level + 1 + (5 - o.level) = 6 := by omega
  have hc : Follows (.op ")" :: rest) := follows_op (by decide) _
  have hs : Follows (.op o.sign :: (r.tokens ++ .op ")" :: rest)) := follows_op (by cases o <;> decide) _
  have hl := reads_of_readsOperand he (left · hs) hs (by cases o <;> simp [Operation.sign])
  have hr := reads_of_readsOperand he (right · hc) hc (by simp)
  rw [← top] at hl hr
  -- Between its level and the tightest the sign is none, and the bracket is one nowhere.
  have hle := hl.looser (by omega) (l.startsOperand_tokens _) fun level ha _ =>
    o.operatorAt?_tighter ha (by omega) _
  have hri := hr.looser (by omega) (r.startsOperand_tokens _) fun level _ _ =>
    operatorAt?_close level rest
  have one : o.level = 4 ∨ o.level = 5 := by cases o <;> simp [Operation.level]
  refine (hle.operation hri (l.startsOperand_tokens _) (operatorAt?_close _ rest)).mono ?_
  omega

/-- An expression without a sign of its own is read as an operand. The sign of a numeral is not part
of an operand, so a power takes the numeral without it. -/
theorem readsOperand_tokens (hu : a.isSigned = false) (hf : Follows rest) :
    ReadsOperand (20 * a.height + 2) (a.tokens ++ rest) a.expr rest := by
  induction a generalizing rest with
  | lit n =>
    have hn : ¬ n < 0 := of_decide_eq_false hu
    rw [tokens, signed, expr, if_neg hn, if_neg hn]
    exact readsOperand_int hf
  | op o l r left right =>
    have low := o.level_le
    have hi : Reads o.level (20 * max l.height r.height + 2 + 7) _ _ (.op ")" :: rest) :=
      reads_operation (by omega) (fun hu _ hf => (left hu hf).mono (by omega))
        (fun hu _ hf => (right hu hf).mono (by omega))
    have hl : Reads 0 _ _ _ _ := Reads.looser (k := o.level) (by rwa [zero_add]) (by omega)
      (l.startsOperand_tokens _) fun level _ _ => operatorAt?_close level rest
    rw [tokens_op_append]
    exact (hl.parens (l.startsOperand_tokens _) hf).mono (by rw [height]; omega)
  | pow b k hb =>
    have hc : Follows (.op ")" :: rest) := follows_op (by decide) _
    have hi := reads_raised (k := k) (by omega) (fun hu _ => hb hu) hc (by simp)
    have hl : Reads 0 _ _ _ _ := Reads.looser (k := 6) hi le_rfl
      (b.startsOperand_tokens _) fun level _ _ => operatorAt?_close level rest
    rw [tokens_pow_append]
    exact (hl.parens (b.startsOperand_tokens _) hf).mono (by rw [height]; omega)

theorem height_lt_length_tokens : 4 * a.height < a.tokens.length := by
  induction a with
  | lit n => by_cases hn : n < 0 <;> simp [tokens, signed, height, hn]
  | op o l r left right | pow b k hb =>
    simp only [tokens, height, length_cons, length_append, length_nil]
    omega

theorem expr?_tokens : expr? a.tokens = some a.expr := by
  have he : Follows [] := by simp [Follows]
  have ht := reads_of_readsOperand (by omega) (fun hu => a.readsOperand_tokens hu he) he (by simp)
  have hl : Reads 0 _ _ _ _ := Reads.looser (k := 6) ht le_rfl
    (a.startsOperand_tokens []) fun level _ _ => operatorAt?_nil level
  have hlo := a.height_lt_length_tokens
  have hw : readExpr a.tokens = some (a.expr, []) := by
    rw [append_nil] at hl
    exact hl _ (by rw [readingFuel]; omega)
  rw [expr?, hw]

end Arith

/-! ## Evaluation -/

section Evaluation

variable {sc : Scope} {f : Nat} {e l r : Expr} {v w : Value} {x y : Int}
  {s : Trace.State Machine Value}

theorem evalExpr_binary {op : BinaryOp} (hp : op ≠ .and ∧ op ≠ .or)
    (left : evalExpr sc f l s = .ok v s) (right : evalExpr sc f r s = .ok w s) :
    evalExpr sc (f + 1) (.binary op l r) s = (liftM (applyOperator op v w) : Eval Value) s := by
  rw [evalExpr, bind_of_ok left, bind_of_ok right]
  · exact hp.1
  · exact hp.2

theorem evalExpr_operation (o : Operation) (left : evalExpr sc f l s = .ok (.int x) s)
    (right : evalExpr sc f r s = .ok (.int y) s) :
    evalExpr sc (f + 1) (.binary o.binaryOp l r) s = .ok (.int (o.apply x y)) s := by
  have hp : o.binaryOp ≠ .and ∧ o.binaryOp ≠ .or := by cases o <;> decide
  rw [evalExpr_binary hp left right]
  cases o <;> rfl

theorem evalExpr_power (k : Nat) (hb : evalExpr sc (f + 1) e s = .ok (.int x) s) :
    evalExpr sc (f + 2) (.binary .pow e (.int k)) s = .ok (.int (x ^ k)) s := by
  rw [evalExpr_binary (by decide) hb (w := .int k) rfl]
  rfl

theorem evalExpr_neg (hi : evalExpr sc f e s = .ok (.int x) s) :
    evalExpr sc (f + 1) (.neg e) s = .ok (.int (-x)) s := by
  rw [evalExpr, bind_of_ok hi]
  rfl

namespace Arith

theorem reading_of_isSigned {a : Arith} (hs : a.isSigned) : a.reading = -(a.value.natAbs : Int) := by
  obtain ⟨n, hn, rfl⟩ := exists_lit_of_isSigned hs
  rw [reading, value]
  omega

theorem evalExpr_expr (a : Arith) (he : 2 * a.height + 2 ≤ f) :
    evalExpr sc f a.expr s = .ok (.int a.reading) s := by
  induction a generalizing f with
  | lit n =>
    obtain ⟨g, rfl⟩ : ∃ g, f = g + 2 := ⟨f - 2, by rw [height] at he; omega⟩
    have hn : evalExpr sc (g + 1) (.int n.natAbs) s = .ok (.int n.natAbs) s := rfl
    rw [expr, reading]
    by_cases hne : n < 0
    · rw [if_pos hne, evalExpr_neg hn, show -(n.natAbs : Int) = n by omega]
    · rw [if_neg hne]
      exact congrArg (fun m => EStateM.Result.ok (Value.int m) s) (by omega : (n.natAbs : Int) = n)
  | op o l r left right =>
    rw [height] at he
    obtain ⟨g, rfl⟩ : ∃ g, f = g + 1 := ⟨f - 1, by omega⟩
    exact evalExpr_operation o (left (by omega)) (right (by omega))
  | pow b k hb =>
    rw [height] at he
    obtain ⟨g, rfl⟩ : ∃ g, f = g + 3 := ⟨f - 3, by omega⟩
    rw [expr, reading]
    cases hs : b.isSigned with
    | true =>
      have hn : evalExpr sc (g + 1) (.int b.value.natAbs) s = .ok (.int b.value.natAbs) s := rfl
      rw [if_pos rfl, if_pos rfl, reading_of_isSigned hs, neg_neg]
      exact evalExpr_neg (evalExpr_power k hn)
    | false =>
      rw [if_neg Bool.false_ne_true, if_neg Bool.false_ne_true]
      exact evalExpr_power k (hb (by omega))

end Arith
end Evaluation

/-! ## Limits -/

variable (level : Nat)

theorem le_nesting (ts : List Token) : level ≤ nesting level ts := by
  cases ts with
  | nil => exact le_rfl
  | cons t ts => exact le_max_left _ _

theorem nesting_plain {level : Nat} (hp : nestingAfter level t = level) :
    nesting level (t :: ts) = nesting level ts := by
  rw [nesting, hp, max_eq_right (le_nesting level ts)]

theorem nesting_open (ts : List Token) : nesting level (.op "(" :: ts) = nesting (level + 1) ts :=
  max_eq_right ((le_succ level).trans (le_nesting (level + 1) ts))

theorem nesting_close (ts : List Token) :
    nesting (level + 1) (.op ")" :: ts) = max (level + 1) (nesting level ts) := rfl

namespace Arith

theorem nesting_tokens (a : Arith) (level : Nat) (rest : List Token) :
    nesting level (a.tokens ++ rest) = max (level + a.height) (nesting level rest) := by
  have ha := le_nesting level rest
  induction a generalizing level rest with
  | lit n =>
    have hm (ts : List Token) : nesting level (.op "-" :: ts) = nesting level ts := nesting_plain rfl
    have hnu (m : Nat) (ts : List Token) : nesting level (.int m :: ts) = nesting level ts :=
      nesting_plain rfl
    by_cases hn : n < 0 <;> simp [tokens, signed, hn, hm, hnu, height, ha]
  | op o l r left right =>
    have hs (ts : List Token) : nesting (level + 1) (.op o.sign :: ts) = nesting (level + 1) ts :=
      nesting_plain (by cases o <;> rfl)
    rw [tokens_op_append, nesting_open, left _ _ (le_nesting _ _), hs,
      right _ _ (le_nesting _ _), nesting_close, height]
    omega
  | pow b k hb =>
    have hs (ts : List Token) :
        nesting (level + 1) (.op "**" :: .int k :: ts) = nesting (level + 1) ts := by
      rw [nesting_plain rfl, nesting_plain rfl]
    rw [tokens_pow_append, nesting_open, hb _ _ (le_nesting _ _), hs, nesting_close, height]
    omega

theorem any_isUnwritable_tokens (a : Arith) :
    a.tokens.any isUnwritable = a.numerals.any fun n => !hasText n := by
  induction a with
  | lit n =>
    have hs : hasText n.natAbs = hasText n := by
      rw [hasText, hasText, Int.natAbs_natCast]
    rw [tokens, numerals, signed]
    split <;> simp only [any_cons, any_nil, isUnwritable, hs, Bool.or_false, Bool.false_or]
  | op o l r left right => simp [tokens, numerals, isUnwritable, left, right]
  | pow b k hb => simp [tokens, numerals, isUnwritable, hb]

end Arith

/-! ## Lines -/

theorem measured_of_head? {line : String} {c : Char} (head : line.toList.head? = some c)
    (hv : c ≠ ' ') : measured line = (0, line) := by
  obtain ⟨cs, hs⟩ := head?_eq_some_iff.1 head
  have hb : line.toList.takeWhile (· == ' ') = [] := by
    simp [hs, hv]
  rw [measured, hb]
  exact congrArg (Prod.mk 0) String.ofList_toList

theorem blocks_flat (ls : List String) :
    blocks (ls.map fun line => (0, line)) = ls.map fun line => .mk line [] := by
  induction ls with
  | nil => rw [map_nil, blocks, map_nil]
  | cons line ls ih =>
    have own : (ls.map fun line => (0, line)).takeWhile (fun l => decide (0 < l.1)) = [] := by
      cases ls <;> simp
    have ho : (ls.map fun line => (0, line)).dropWhile (fun l => decide (0 < l.1)) =
        ls.map fun line => (0, line) := by
      cases ls <;> simp
    rw [map_cons, blocks, own, ho, ih, blocks]
    rfl

end Target

end Appwright
