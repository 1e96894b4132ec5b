import FieldCompute.Block
import FieldCompute.Proofs.Text.Tokens
import FieldCompute.Proofs.Value.Text
/-!
# The text of a body

A body is determined by its text, as long as no constant is a NaN (`text_eq_iff`). A line begins
with a keyword that tells the kind of the statement and its operator (`Stmt.Head`); behind it the
numbers, names and lists stand as tokens, each with a character behind it that ends it, so they are
read off one by one up to the end of the line.
-/

namespace FieldCompute

open Text

/-! ## Names and numbers -/

theorem DType.token_name : Token DType.name := by
  refine Token.of_all (.void :: Scalar.all.map .scalar) ?_ (by decide) (by decide)
  intro d
  cases d with
  | void => decide
  | scalar s => cases s <;> decide

theorem StmtId.token_text : Token StmtId.text := token_nat.append "$" (by decide)

theorem NodeId.token_text : Token NodeId.text := token_nat.append "S" (by decide)

namespace Stmt

/-! ## Keywords -/

/-- What the text of a statement begins with. -/
inductive Head where
  | const | arg | op (op : ScalarOp) | cast | load | store | ret

namespace Head

def keyword : Head → String
  | const => "const"
  | arg => "arg"
  | op o => o.name
  | cast => "cast"
  | load => "load"
  | store => "store"
  | ret => "return"

def all : List Head :=
  [const, arg, cast, load, store, ret] ++ UnaryOp.all.map (op ∘ .unary) ++
    BinaryOp.all.map (op ∘ .binary)

theorem mem_all (h : Head) : h ∈ all := by
  cases h with
  | op o =>
    cases o with
    | unary u => cases u <;> simp [all, UnaryOp.all]
    | binary b => cases b <;> simp [all, BinaryOp.all]
  | _ => simp [all]

/-- No operator is called like another one, or like another kind of statement. -/
theorem token_keyword : Token keyword := Token.of_all all mem_all (by decide) (by decide)

end Head

def head : Stmt → Head
  | const .. => .const
  | arg .. => .arg
  | unary op .. => .op (.unary op)
  | binary op .. => .op (.binary op)
  | cast .. => .cast
  | load .. => .load
  | store .. => .store
  | ret .. => .ret

/-- What follows the keyword in a text that goes on with `rest`. -/
def body (s : Stmt) (rest : List Char) : List Char :=
  match s with
  | const v d => ' ' :: (d.name.toList ++ ' ' :: (v.text.toList ++ rest))
  | arg i d => '[' :: ((toString i).toList ++ ']' :: ' ' :: (d.name.toList ++ rest))
  | unary _ a d => ' ' :: (d.name.toList ++ ' ' :: (a.text.toList ++ rest))
  | binary _ a b d =>
    ' ' :: (d.name.toList ++ ' ' :: (a.text.toList ++ ',' :: ' ' :: (b.text.toList ++ rest)))
  | cast a d => ' ' :: (d.name.toList ++ ' ' :: (a.text.toList ++ rest))
  | load p is d =>
    ' ' :: (d.name.toList ++ ' ' :: (p.text.toList ++ '[' :: listed StmtId.text is rest))
  | store p is v =>
    ' ' :: (p.text.toList ++
      '[' :: listed StmtId.text is (" <- ".toList ++ (v.text.toList ++ rest)))
  | ret i v => '[' :: ((toString i).toList ++ ']' :: ' ' :: (v.text.toList ++ rest))

theorem text_append (s : Stmt) (rest : List Char) :
    s.text.toList ++ rest = s.head.keyword.toList ++ s.body rest := by
  cases s with
  | load p is d =>
    have htext : (load p is d).text =
        "load " ++ d.name ++ " " ++ (p.text ++ bracketed (is.map StmtId.text)) := rfl
    rw [htext]
    simp [body, head, Head.keyword, bracketed, listed]
  | store p is v =>
    have htext : (store p is v).text =
        "store " ++ (p.text ++ bracketed (is.map StmtId.text)) ++ " <- " ++ v.text := rfl
    rw [htext]
    simp [body, head, Head.keyword, bracketed, listed]
  | _ => simp [text, body, head, Head.keyword, ScalarOp.name]

theorem exists_body_head (s : Stmt) (rest : List Char) :
    ∃ c tail, s.body rest = c :: tail ∧ isTokenChar c = false := by
  cases s <;> exact ⟨_, _, rfl, rfl⟩

/-- Two texts that begin alike begin with the same keyword. -/
theorem read_head {s s' : Stmt} {r r' : List Char}
    (h : s.text.toList ++ r = s'.text.toList ++ r') :
    s.head = s'.head ∧ s.body r = s'.body r' := by
  obtain ⟨c, tail, hbody, hc⟩ := s.exists_body_head r
  obtain ⟨c', tail', hbody', hc'⟩ := s'.exists_body_head r'
  rw [text_append, text_append, hbody, hbody'] at h
  obtain ⟨hhead, rfl, rfl⟩ := Head.token_keyword.read hc hc' h
  exact ⟨hhead, hbody.trans hbody'.symm⟩

/-! ## Statements -/

/-- The statement does not hold a NaN. -/
def IsNumber (s : Stmt) : Prop := ∀ v d, s = const v d → v.isNaN = false

variable {r r' : List Char}

/-- A constant stands last in its line. -/
theorem read_value {v w : Value} (hv : v.isNaN = false) (hw : w.isNaN = false)
    (h : v.text.toList ++ '\n' :: r = w.text.toList ++ '\n' :: r') : v = w ∧ r = r' := by
  obtain ⟨htext, -, hrest⟩ := split_inj (fun _ => Value.isTokenChar_of_mem_text hv)
    (fun _ => Value.isTokenChar_of_mem_text hw) rfl rfl h
  exact ⟨Value.eq_of_text_eq hv hw (String.toList_inj.1 htext), hrest⟩

theorem read_body {s s' : Stmt} (hs : s.IsNumber) (hs' : s'.IsNumber) (hhead : s.head = s'.head)
    (h : s.body ('\n' :: r) = s'.body ('\n' :: r')) : s = s' ∧ r = r' := by
  -- Equal heads leave one kind on both sides; its parts are read from left to right.
  cases s with
  | const v d =>
    cases s' with
    | const v' d' =>
      obtain ⟨rfl, -, h⟩ := DType.token_name.read rfl rfl (List.cons.inj h).2
      obtain ⟨rfl, hrest⟩ := read_value (hs v d rfl) (hs' v' d rfl) h
      exact ⟨rfl, hrest⟩
    | _ => cases hhead
  | arg i d =>
    cases s' with
    | arg i' d' =>
      obtain ⟨rfl, -, h⟩ := token_nat.read rfl rfl (List.cons.inj h).2
      obtain ⟨rfl, -, hrest⟩ := DType.token_name.read rfl rfl (List.cons.inj h).2
      exact ⟨rfl, hrest⟩
    | _ => cases hhead
  | unary op a d =>
    cases s' with
    | unary op' a' d' =>
      cases hhead
      obtain ⟨rfl, -, h⟩ := DType.token_name.read rfl rfl (List.cons.inj h).2
      obtain ⟨rfl, -, hrest⟩ := StmtId.token_text.read rfl rfl h
      exact ⟨rfl, hrest⟩
    | _ => cases hhead
  | binary op a b d =>
    cases s' with
    | binary op' a' b' d' =>
      cases hhead
      obtain ⟨rfl, -, h⟩ := DType.token_name.read rfl rfl (List.cons.inj h).2
      obtain ⟨rfl, -, h⟩ := StmtId.token_text.read rfl rfl h
      obtain ⟨rfl, -, hrest⟩ := StmtId.token_text.read rfl rfl (List.cons.inj h).2
      exact ⟨rfl, hrest⟩
    | _ => cases hhead
  | cast a d =>
    cases s' with
    | cast a' d' =>
      obtain ⟨rfl, -, h⟩ := DType.token_name.read rfl rfl (List.cons.inj h).2
      obtain ⟨rfl, -, hrest⟩ := StmtId.token_text.read rfl rfl h
      exact ⟨rfl, hrest⟩
    | _ => cases hhead
  | load p is d =>
    cases s' with
    | load p' is' d' =>
      obtain ⟨rfl, -, h⟩ := DType.token_name.read rfl rfl (List.cons.inj h).2
      obtain ⟨rfl, -, h⟩ := NodeId.token_text.read rfl rfl h
      obtain ⟨rfl, hrest⟩ := StmtId.token_text.read_list h
      exact ⟨rfl, (List.cons.inj hrest).2⟩
    | _ => cases hhead
  | store p is v =>
    cases s' with
    | store p' is' v' =>
      obtain ⟨rfl, -, h⟩ := NodeId.token_text.read rfl rfl (List.cons.inj h).2
      obtain ⟨rfl, hvalue⟩ := StmtId.token_text.read_list h
      obtain ⟨rfl, -, hrest⟩ := StmtId.token_text.read rfl rfl (List.append_cancel_left hvalue)
      exact ⟨rfl, hrest⟩
    | _ => cases hhead
  | ret i v =>
    cases s' with
    | ret i' v' =>
      obtain ⟨rfl, -, h⟩ := token_nat.read rfl rfl (List.cons.inj h).2
      obtain ⟨rfl, -, hrest⟩ := StmtId.token_text.read rfl rfl (List.cons.inj h).2
      exact ⟨rfl, hrest⟩
    | _ => cases hhead

/-- A line is read off the front of a text. -/
theorem read_line {s s' : Stmt} (hs : s.IsNumber) (hs' : s'.IsNumber)
    (h : s.text.toList ++ '\n' :: r = s'.text.toList ++ '\n' :: r') : s = s' ∧ r = r' := by
  obtain ⟨hhead, hbody⟩ := read_head h
  exact read_body hs hs' hhead hbody

end Stmt

/-! ## Bodies -/

namespace Block

/-- No constant of the body is a NaN. -/
def NoNaN (b : Block) : Prop := ∀ v d, Stmt.const v d ∈ b → v.isNaN = false

theorem NoNaN.head {s : Stmt} {b : Block} (h : NoNaN (s :: b)) : s.IsNumber := by
  intro v d hs
  exact h v d (hs ▸ List.mem_cons_self)

theorem NoNaN.tail {s : Stmt} {b : Block} (h : NoNaN (s :: b)) : NoNaN b :=
  fun v d hs => h v d (List.mem_cons_of_mem _ hs)

/-- The lines of a body whose first statement has the position `id`. -/
def lines (b : Block) (id : StmtId) : List Char :=
  (String.join ((b.zipIdx id).map fun (s, id) => s.labelled id ++ "\n")).toList

theorem lines_cons (s : Stmt) (b : Block) (id : StmtId) :
    lines (s :: b) id =
      id.text.toList ++ " = ".toList ++ (s.text.toList ++ '\n' :: b.lines (id + 1)) := by
  simp [lines, Stmt.labelled, String.toList_join]

theorem lines_cons_ne_nil (s : Stmt) (b : Block) (id : StmtId) :
    lines (s :: b) id ≠ lines [] id := by
  rw [lines_cons]
  intro h
  have hid := List.append_eq_nil_iff.1 (List.append_eq_nil_iff.1 h).1
  exact StmtId.token_text.nonempty id hid.1

theorem eq_of_lines_eq {b b' : Block} (hb : b.NoNaN) (hb' : b'.NoNaN) (id : StmtId)
    (h : b.lines id = b'.lines id) : b = b' := by
  -- Both texts count their lines alike, so the labels cancel and the lines are compared in order.
  induction b generalizing b' id with
  | nil =>
    cases b' with
    | nil => rfl
    | cons s' b' => exact absurd h.symm (lines_cons_ne_nil s' b' id)
  | cons s b ih =>
    cases b' with
    | nil => exact absurd h (lines_cons_ne_nil s b id)
    | cons s' b' =>
      rw [lines_cons, lines_cons] at h
      obtain ⟨rfl, hrest⟩ := Stmt.read_line hb.head hb'.head (List.append_cancel_left h)
      rw [ih hb.tail hb'.tail (id + 1) hrest]

/-- Bodies without NaNs have the same text only where they are the same statement by statement. -/
theorem text_eq_iff {b b' : Block} (hb : b.NoNaN) (hb' : b'.NoNaN) : b.text = b'.text ↔ b = b' := by
  constructor
  · intro h
    exact eq_of_lines_eq hb hb' 0 (congrArg String.toList h)
  · rintro rfl
    rfl

/-- The same digits in another carrier are another text. -/
theorem text_eq_iff_carriers :
    let b : Block := [.const (.float .one) (.scalar .float64), .store 1 [0] 0]
    let b' : Block := [.const (.int 1) (.scalar .float64), .store 1 [0] 0]
    b.NoNaN ∧ b'.NoNaN ∧ b.text ≠ b'.text := by
  intro b b'
  have hb : b.NoNaN := by
    intro v d h
    rcases List.mem_cons.1 h with h | h
    · cases h
      decide
    · cases List.mem_singleton.1 h
  have hb' : b'.NoNaN := by
    intro v d h
    rcases List.mem_cons.1 h with h | h
    · cases h
      rfl
    · cases List.mem_singleton.1 h
  refine ⟨hb, hb', ?_⟩
  intro h
  exact absurd ((text_eq_iff hb hb').1 h) (by decide)

end Block

end FieldCompute
