import PeakLang.Tree.Parser

namespace PeakLang

namespace TypeExpr

-- Trees nest through lists, where no equality can be derived: it is decided by a comparison that
-- follows the constructors.
mutual

/-- Whether two types are written alike and at the same positions. -/
def same : TypeExpr → TypeExpr → Bool
  | named n p, named n' p' => n == n' && p == p'
  | array t p, array t' p' => t.same t' && p == p'
  | optional t p, optional t' p' => t.same t' && p == p'
  | function ts t p, function ts' t' p' => sameAll ts ts' && t.same t' && p == p'
  | _, _ => false

def sameAll : List TypeExpr → List TypeExpr → Bool
  | [], [] => true
  | t :: ts, t' :: ts' => t.same t' && sameAll ts ts'
  | _, _ => false

end

mutual

theorem same_iff (t u : TypeExpr) : t.same u = true ↔ t = u := by
  cases t <;> cases u <;> simp [same, same_iff, sameAll_iff, and_assoc]

theorem sameAll_iff (ts us : List TypeExpr) : sameAll ts us = true ↔ ts = us := by
  cases ts <;> cases us <;> simp [sameAll, same_iff, sameAll_iff]

end

instance : DecidableEq TypeExpr := fun t u => decidable_of_iff _ (same_iff t u)

end TypeExpr

namespace Tree

namespace Expr

mutual

/-- Whether two expressions are written alike and at the same positions. -/
def same : Expr → Expr → Bool
  | name n p, name n' p' => n == n' && p == p'
  | shot p, shot p' => p == p'
  | int n p, int n' p' | float n p, float n' p' | string n p, string n' p' => n == n' && p == p'
  | bool b p, bool b' p' => b == b' && p == p'
  | array es p, array es' p' => sameAll es es' && p == p'
  | emptyArray t p, emptyArray t' p' => t == t' && p == p'
  | member e n p, member e' n' p' => e.same e' && n == n' && p == p'
  | index e i p, index e' i' p' => e.same e' && i.same i' && p == p'
  | call e es p, call e' es' p' => e.same e' && sameAll es es' && p == p'
  | unary op e p, unary op' e' p' => op == op' && e.same e' && p == p'
  | binary op l r p, binary op' l' r' p' => op == op' && l.same l' && r.same r' && p == p'
  | conditional t c a p, conditional t' c' a' p' => t.same t' && c.same c' && a.same a' && p == p'
  | _, _ => false

def sameAll : List Expr → List Expr → Bool
  | [], [] => true
  | e :: es, e' :: es' => e.same e' && sameAll es es'
  | _, _ => false

end

mutual

theorem same_iff (e x : Expr) : e.same x = true ↔ e = x := by
  cases e <;> cases x <;> simp [same, same_iff, sameAll_iff, and_assoc]

theorem sameAll_iff (es xs : List Expr) : sameAll es xs = true ↔ es = xs := by
  cases es <;> cases xs <;> simp [sameAll, same_iff, sameAll_iff]

end

instance : DecidableEq Expr := fun e x => decidable_of_iff _ (same_iff e x)

end Expr

deriving instance DecidableEq for Param
deriving instance DecidableEq for Field

mutual

/-- Whether two statements are written alike and at the same positions. -/
def Stmt.same : Stmt → Stmt → Bool
  | .declare n r e p, .declare n' r' e' p' => n == n' && r == r' && e == e' && p == p'
  | .function f, .function f' => f.same f'
  | .cls n fs ms p, .cls n' fs' ms' p' => n == n' && fs == fs' && Func.sameAll ms ms' && p == p'
  | .assign e x p, .assign e' x' p' => e == e' && x == x' && p == p'
  | .bump op e p, .bump op' e' p' => op == op' && e == e' && p == p'
  | .branch b, .branch b' => b.same b'
  | .loop e ss q p, .loop e' ss' q' p' => e == e' && Stmt.sameAll ss ss' && q == q' && p == p'
  | .forEach n o e ss q p, .forEach n' o' e' ss' q' p' =>
    n == n' && o == o' && e == e' && Stmt.sameAll ss ss' && q == q' && p == p'
  | .leave p, .leave p' => p == p'
  | .ret e p, .ret e' p' => e == e' && p == p'
  | .print e p, .print e' p' => e == e' && p == p'
  | .call e es q p, .call e' es' q' p' => e == e' && es == es' && q == q' && p == p'
  | _, _ => false
termination_by structural x => x

def Func.same : Func → Func → Bool
  | .mk n ps t ss q p, .mk n' ps' t' ss' q' p' =>
    n == n' && ps == ps' && t == t' && Stmt.sameAll ss ss' && q == q' && p == p'
termination_by structural x => x

def Branch.same : Branch → Branch → Bool
  | .mk e ss q o p, .mk e' ss' q' o' p' =>
    e == e' && Stmt.sameAll ss ss' && q == q' && o.same o' && p == p'
termination_by structural x => x

def Otherwise.same : Otherwise → Otherwise → Bool
  | .nothing, .nothing => true
  | .block ss q, .block ss' q' => Stmt.sameAll ss ss' && q == q'
  | .chain b, .chain b' => b.same b'
  | _, _ => false
termination_by structural x => x

def Stmt.sameAll : List Stmt → List Stmt → Bool
  | [], [] => true
  | s :: ss, s' :: ss' => s.same s' && Stmt.sameAll ss ss'
  | _, _ => false
termination_by structural x => x

def Func.sameAll : List Func → List Func → Bool
  | [], [] => true
  | f :: fs, f' :: fs' => f.same f' && Func.sameAll fs fs'
  | _, _ => false
termination_by structural x => x

end

mutual

theorem Stmt.same_iff (s t : Stmt) : s.same t = true ↔ s = t := by
  cases s <;> cases t <;>
    simp [Stmt.same, Func.same_iff, Branch.same_iff, Stmt.sameAll_iff, Func.sameAll_iff, and_assoc]
termination_by structural s

theorem Func.same_iff (f g : Func) : f.same g = true ↔ f = g := by
  cases f; cases g
  simp [Func.same, Stmt.sameAll_iff, and_assoc]
termination_by structural f

theorem Branch.same_iff (b c : Branch) : b.same c = true ↔ b = c := by
  cases b; cases c
  simp [Branch.same, Stmt.sameAll_iff, Otherwise.same_iff, and_assoc]
termination_by structural b

theorem Otherwise.same_iff (o q : Otherwise) : o.same q = true ↔ o = q := by
  cases o <;> cases q <;> simp [Otherwise.same, Branch.same_iff, Stmt.sameAll_iff]
termination_by structural o

theorem Stmt.sameAll_iff (ss ts : List Stmt) : Stmt.sameAll ss ts = true ↔ ss = ts := by
  cases ss <;> cases ts <;> simp [Stmt.sameAll, Stmt.same_iff, Stmt.sameAll_iff]
termination_by structural ss

theorem Func.sameAll_iff (fs gs : List Func) : Func.sameAll fs gs = true ↔ fs = gs := by
  cases fs <;> cases gs <;> simp [Func.sameAll, Func.same_iff, Func.sameAll_iff]
termination_by structural fs

end

instance : DecidableEq Stmt := fun s t => decidable_of_iff _ (Stmt.same_iff s t)

deriving instance DecidableEq for Parser.Result

end Tree

end PeakLang
