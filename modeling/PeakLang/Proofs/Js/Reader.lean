import PeakLang.Proofs.Js.Grammar

namespace PeakLang.Js

def signs : List Token → Bool
  | .op .sub :: _ | .not :: _ => true
  | _ => false

namespace Reader

mutual

/-- An expression. What stands before an arrow was read as a name in parentheses. -/
def expression : Nat → List Token → Option (Node × List Token)
  | 0, _ => none
  | fuel + 1, ts => do
    let (x, rest) ← operation fuel 1 ts
    match rest with
    | .question :: rest => do
      let (consequent, rest) ← expression fuel rest
      match rest with
      | .colon :: rest => do
        let (alternate, rest) ← expression fuel rest
        return (.conditional x consequent alternate, rest)
      | _ => none
    | .arrow :: rest =>
      match ts with
      | .lparen :: .name n :: .rparen :: .arrow :: _ => do
        let (body, rest) ← expression fuel rest
        return (.arrow n body, rest)
      | _ => none
    | rest => return (x, rest)

def operation : Nat → Nat → List Token → Option (Node × List Token)
  | 0, _, _ => none
  | fuel + 1, level, ts =>
    if level < 7 then do
      let (x, rest) ← operation fuel (level + 1) ts
      operations fuel level x rest
    else if signs ts then signed fuel ts
    else do
      let (x, rest) ← accessed fuel true ts
      match rest with
      | .op .pow :: rest => do
        let (y, rest) ← operation fuel 7 rest
        return (.binary .pow x y, rest)
      | rest => return (x, rest)

/-- The operations of a level after the first operand. -/
def operations : Nat → Nat → Node → List Token → Option (Node × List Token)
  | 0, _, _, _ => none
  | fuel + 1, level, x, ts =>
    match ts with
    | .op op :: rest =>
      if op.level = level then do
        let (y, rest) ← operation fuel (level + 1) rest
        operations fuel level (.binary op x y) rest
      else some (x, .op op :: rest)
    | ts => some (x, ts)

/-- An operand with the signs before it. -/
def signed : Nat → List Token → Option (Node × List Token)
  | 0, _ => none
  | fuel + 1, ts =>
    match ts with
    | .op .sub :: rest => do
      let (x, rest) ← signed fuel rest
      return (.unary .minus x, rest)
    | .not :: rest => do
      let (x, rest) ← signed fuel rest
      return (.unary .not x, rest)
    | ts => accessed fuel true ts

/-- An operand with the members and indexes after it, and with the calls if these count. -/
def accessed : Nat → Bool → List Token → Option (Node × List Token)
  | 0, _, _ => none
  | fuel + 1, calls, ts => do
    let (x, rest) ← operand fuel ts
    accesses fuel calls x rest

/-- What follows an operand. -/
def accesses : Nat → Bool → Node → List Token → Option (Node × List Token)
  | 0, _, _, _ => none
  | fuel + 1, calls, x, ts =>
    match ts with
    | .lparen :: rest =>
      if calls then do
        let (args, rest) ← items fuel rest
        match rest with
        | .rparen :: rest => accesses fuel calls (.call x args) rest
        | _ => none
      else some (x, .lparen :: rest)
    | .lbracket :: rest => do
      let (i, rest) ← expression fuel rest
      match rest with
      | .rbracket :: rest => accesses fuel calls (.index x i) rest
      | _ => none
    | .dot :: .name n :: rest => accesses fuel calls (.member x n) rest
    | ts => some (x, ts)

def operand : Nat → List Token → Option (Node × List Token)
  | 0, _ => none
  | fuel + 1, ts =>
    match ts with
    | .name n :: rest => some (.name n, rest)
    | .this :: rest => some (.this, rest)
    | .number value :: rest => some (.number value, rest)
    | .string value :: rest => some (.string value, rest)
    | .bool value :: rest => some (.bool value, rest)
    | .lbracket :: rest => do
      let (elements, rest) ← items fuel rest
      match rest with
      | .rbracket :: rest => return (.array elements, rest)
      | _ => none
    | .lparen :: rest => do
      let (x, rest) ← expression fuel rest
      match rest with
      | .rparen :: rest => return (x, rest)
      | _ => none
    | .new :: rest => do
      let (x, rest) ← accessed fuel false rest
      match rest with
      | .lparen :: rest => do
        let (args, rest) ← items fuel rest
        match rest with
        | .rparen :: rest => return (.new x args, rest)
        | _ => none
      | _ => none
    | _ => none

/-- An item of an array or a call. -/
def item : Nat → List Token → Option (Node × List Token)
  | 0, _ => none
  | fuel + 1, ts =>
    match ts with
    | .spread :: rest => do
      let (x, rest) ← expression fuel rest
      return (.spread x, rest)
    | ts => expression fuel ts

/-- The items up to a closing token. -/
def items : Nat → List Token → Option (List Node × List Token)
  | 0, _ => none
  | fuel + 1, ts =>
    match ts with
    | .rparen :: rest => some ([], .rparen :: rest)
    | .rbracket :: rest => some ([], .rbracket :: rest)
    | ts => do
      let (x, rest) ← item fuel ts
      match rest with
      | .comma :: rest => do
        let (xs, rest) ← items fuel rest
        return (x :: xs, rest)
      | rest => return ([x], rest)

end

end Reader

/-- Whether reading ends with a result, once there is fuel enough. -/
def Reads {α : Type} (f : Nat → Option α) (a : α) : Prop := ∃ n, ∀ k, n ≤ k → f k = some a

namespace Reads

variable {α β : Type} {f g : Nat → Option α} {a b : α}

theorem unique (ha : Reads f a) (hb : Reads f b) : a = b := by
  obtain ⟨n, hn⟩ := ha
  obtain ⟨m, hm⟩ := hb
  have hsame := (hn (max n m) (Nat.le_max_left n m)).symm.trans (hm (max n m) (Nat.le_max_right n m))
  exact Option.some.inj hsame

theorem pure (a : α) : Reads (fun _ => some a) a := ⟨0, fun _ _ => rfl⟩

/-- A step of reading takes one unit of fuel. -/
theorem step (h : Reads (fun k => f (k + 1)) a) : Reads f a := by
  obtain ⟨n, hn⟩ := h
  refine ⟨n + 1, fun k hk => ?_⟩
  obtain ⟨k, rfl⟩ := Nat.exists_eq_succ_of_ne_zero (Nat.ne_of_gt (Nat.lt_of_lt_of_le n.succ_pos hk))
  exact hn k (Nat.le_of_succ_le_succ hk)

theorem congr (h : Reads g a) (heq : ∀ k, f k = g k) : Reads f a := by
  rwa [funext heq]

theorem bind {h : Nat → α → Option β} {c : β} (hf : Reads f a) (hh : Reads (fun k => h k a) c) :
    Reads (fun k => (f k).bind (h k)) c := by
  obtain ⟨n, hn⟩ := hf
  obtain ⟨m, hm⟩ := hh
  refine ⟨max n m, fun k hk => ?_⟩
  have hfk := hn k (Nat.le_trans (Nat.le_max_left n m) hk)
  have hhk := hm k (Nat.le_trans (Nat.le_max_right n m) hk)
  show (f k).bind (h k) = some c
  rw [hfk, Option.bind_some]
  exact hhk

end Reads

/-- Whether a token after an operation of a level continues it. Level zero is that of expressions. -/
def Token.continues (level : Nat) : Token → Bool
  | .lparen | .lbracket | .dot => true
  | .op o => level ≤ o.level
  | .question | .arrow => level == 0
  | _ => false

/-- Whether what follows an operation of a level does not continue it. -/
def Stops (level : Nat) (rest : List Token) : Prop := ∀ t ∈ rest.head?, t.continues level = false

theorem stops_nil (level : Nat) : Stops level [] := by
  intro t ht
  cases ht

theorem stops_cons {level : Nat} {t : Token} {rest : List Token} :
    Stops level (t :: rest) ↔ t.continues level = false := by
  simp [Stops]

theorem Stops.mono {level : Nat} {rest : List Token} (h : Stops level rest) :
    Stops (level + 1) rest := by
  intro t ht
  have hstop := h t ht
  cases t with
  | op o =>
    simp only [Token.continues, decide_eq_false_iff_not] at hstop ⊢
    omega
  | question | arrow => simp [Token.continues]
  | _ => exact hstop

/-- Whether a token starts an operand that has no sign. -/
def Token.opens : Token → Bool
  | .name _ | .number _ | .string _ | .bool _ | .this | .new | .lparen | .lbracket => true
  | _ => false

/-- Whether a token starts an expression. -/
def Token.begins : Token → Bool
  | .op .sub | .not => true
  | t => t.opens

/-- What the first token of a phrase is. -/
def Phrase.Starts : Phrase → List Token → Prop
  | .called, ts | .accessed, ts | .primary, ts => ∃ t us, ts = t :: us ∧ t.opens = true
  | .item, ts => ∃ t us, ts = t :: us ∧ (t = .spread ∨ t.begins = true)
  | .items, _ => True
  | _, ts => ∃ t us, ts = t :: us ∧ t.begins = true

theorem Token.begins_of_opens {t : Token} (h : t.opens = true) : t.begins = true := by
  cases t <;> first | exact h | cases h

theorem Derives.starts {p : Phrase} {ts : List Token} {r : p.Result} (h : Derives p ts r) :
    p.Starts ts := by
  induction h with
  | operation _ ih | tighter _ _ ih | signed _ ih | accessed _ ih | primary _ ih => exact ih
  | conditional _ _ _ ih _ _ | binary _ _ _ ih _ | call _ _ ih _ | index _ _ ih _ | member _ ih
  | accessedIndex _ _ ih _ | accessedMember _ ih =>
    obtain ⟨t, us, rfl, ht⟩ := ih
    exact ⟨t, _, rfl, ht⟩
  | called _ ih =>
    obtain ⟨t, us, rfl, ht⟩ := ih
    exact ⟨t, us, rfl, Token.begins_of_opens ht⟩
  | power _ _ ih _ =>
    obtain ⟨t, us, rfl, ht⟩ := ih
    exact ⟨t, _, rfl, Token.begins_of_opens ht⟩
  | @unary sign _ _ _ _ => cases sign <;> exact ⟨_, _, rfl, rfl⟩
  | plain _ ih =>
    obtain ⟨t, us, rfl, ht⟩ := ih
    exact ⟨t, us, rfl, .inr ht⟩
  | spread => exact ⟨_, _, rfl, .inl rfl⟩
  | none | one | more => trivial
  | _ => exact ⟨_, _, rfl, rfl⟩

namespace Reader

variable {ts rest : List Token} {x : Node}

/-- Whether the reader takes the tokens of a phrase for its tree, whatever follows that does not
continue it. For a chain, of operations or of accesses, what follows may continue it: the reader then
does as if the chain so far was its first operand. -/
def Takes : (p : Phrase) → List Token → p.Result → Prop
  | .expression, ts, x => ∀ rest, Stops 0 rest → Reads (expression · (ts ++ rest)) (x, rest)
  | .operation level, ts, x =>
    (level < 7 ∧ ∀ rest r, Stops (level + 1) rest → Reads (operations · level x rest) r →
      Reads (operation · level (ts ++ rest)) r) ∨
    (level = 7 ∧ ∀ rest, Stops 7 rest → Reads (operation · 7 (ts ++ rest)) (x, rest))
  | .signed, ts, x => ∀ rest, Stops 7 rest →
    Reads (signed · (ts ++ rest)) (x, rest) ∧ Reads (operation · 7 (ts ++ rest)) (x, rest)
  | .called, ts, x => ∀ rest r, Reads (accesses · true x rest) r →
    Reads (accessed · true (ts ++ rest)) r
  | .accessed, ts, x => ∀ calls rest r, Reads (accesses · calls x rest) r →
    Reads (accessed · calls (ts ++ rest)) r
  | .primary, ts, x => ∀ rest, Reads (operand · (ts ++ rest)) (x, rest)
  | .item, ts, x => ∀ rest, Stops 0 rest → Reads (item · (ts ++ rest)) (x, rest)
  | .items, ts, xs => ∀ t rest, t = .rparen ∨ t = .rbracket →
    Reads (items · (ts ++ t :: rest)) (xs, t :: rest)

theorem reads_accesses_stop {calls : Bool} (h : Stops 8 rest) :
    Reads (accesses · calls x rest) (x, rest) := by
  refine ((Reads.pure (x, rest)).congr fun k => ?_).step
  cases rest with
  | nil => rfl
  | cons t rest =>
    rw [stops_cons] at h
    cases t with
    | lparen | lbracket | dot => cases h
    | _ => rfl

theorem reads_operations_stop {level : Nat} (h : Stops level rest) :
    Reads (operations · level x rest) (x, rest) := by
  refine ((Reads.pure (x, rest)).congr fun k => ?_).step
  cases rest with
  | nil => rfl
  | cons t rest =>
    rw [stops_cons] at h
    cases t with
    | op o =>
      simp only [Token.continues, decide_eq_false_iff_not] at h
      rw [operations, if_neg (by omega)]
    | _ => rfl

/-- Operations of a level end where what follows does not continue them. -/
theorem Takes.operation {level : Nat} (h : Takes (.operation level) ts x) (hrest : Stops level rest) :
    Reads (operation · level (ts ++ rest)) (x, rest) := by
  obtain ⟨_, hchain⟩ | ⟨rfl, hpower⟩ := h
  · exact hchain rest _ hrest.mono (reads_operations_stop hrest)
  · exact hpower rest hrest

theorem reads_expression (h : Reads (operation · 1 ts) (x, rest)) (hrest : Stops 0 rest) :
    Reads (expression · ts) (x, rest) := by
  refine (h.bind ((Reads.pure (x, rest)).congr fun k => ?_)).step
  cases rest with
  | nil => rfl
  | cons t rest =>
    rw [stops_cons] at hrest
    cases t with
    | question | arrow => cases hrest
    | _ => rfl

variable {us : List Token} {r : Node × List Token} {t : Token}

theorem reads_conditional {vs : List Token} {y z : Node}
    (htest : Reads (operation · 1 ts) (x, .question :: us))
    (hthen : Reads (expression · us) (y, .colon :: vs)) (helse : Reads (expression · vs) (z, rest)) :
    Reads (expression · ts) (.conditional x y z, rest) := by
  apply Reads.step
  refine htest.bind ?_
  refine hthen.bind ?_
  exact helse.bind (Reads.pure (Node.conditional x y z, rest))

theorem reads_operation {level : Nat} (hlevel : level < 7)
    (hfirst : Reads (operation · (level + 1) ts) (x, us))
    (hrest : Reads (operations · level x us) r) :
    Reads (operation · level ts) r := by
  apply Reads.step
  simp only [operation, if_pos hlevel]
  refine hfirst.bind ?_
  exact hrest

theorem reads_operations {op : Operator} {y : Node}
    (hnext : Reads (operation · (op.level + 1) ts) (y, us))
    (hrest : Reads (operations · op.level (.binary op x y) us) r) :
    Reads (operations · op.level x (.op op :: ts)) r := by
  apply Reads.step
  simp only [operations, if_true]
  refine hnext.bind ?_
  exact hrest

theorem reads_signed_operation (hsign : signs ts = true) (h : Reads (signed · ts) (x, rest)) :
    Reads (operation · 7 ts) (x, rest) := by
  apply Reads.step
  simp only [operation, hsign, if_true]
  exact h

theorem signs_of_opens (h : t.opens = true) : signs (t :: rest) = false := by
  cases t <;> first | rfl | cases h

theorem reads_signed_called (hsign : signs ts = false) (h : Reads (accessed · true ts) (x, rest)) :
    Reads (signed · ts) (x, rest) := by
  refine (h.congr fun k => ?_).step
  cases ts with
  | nil => rfl
  | cons t ts =>
    cases t with
    | op o => cases o <;> first | rfl | cases hsign
    | not => cases hsign
    | _ => rfl

theorem reads_power {y : Node} (hsign : signs ts = false)
    (hbase : Reads (accessed · true ts) (x, .op .pow :: us))
    (hexponent : Reads (operation · 7 us) (y, rest)) :
    Reads (operation · 7 ts) (.binary .pow x y, rest) := by
  apply Reads.step
  simp only [operation, hsign]
  refine hbase.bind ?_
  exact hexponent.bind (Reads.pure (Node.binary .pow x y, rest))

theorem reads_called_operation (hsign : signs ts = false) (h : Reads (accessed · true ts) (x, rest))
    (hrest : Stops 7 rest) : Reads (operation · 7 ts) (x, rest) := by
  apply Reads.step
  simp only [operation, hsign]
  refine h.bind ((Reads.pure (x, rest)).congr fun k => ?_)
  cases rest with
  | nil => rfl
  | cons t rest =>
    rw [stops_cons] at hrest
    cases t with
    | op o => cases o <;> first | rfl | cases hrest
    | _ => rfl

theorem reads_accessed {calls : Bool} (h : Reads (operand · ts) (x, us))
    (hrest : Reads (accesses · calls x us) r) :
    Reads (accessed · calls ts) r := by
  apply Reads.step
  refine h.bind ?_
  exact hrest

theorem reads_call {args : List Node} (hargs : Reads (items · ts) (args, .rparen :: us))
    (hrest : Reads (accesses · true (.call x args) us) r) :
    Reads (accesses · true x (.lparen :: ts)) r := by
  apply Reads.step
  refine hargs.bind ?_
  exact hrest

theorem reads_index {i : Node} {calls : Bool} (hi : Reads (expression · ts) (i, .rbracket :: us))
    (hrest : Reads (accesses · calls (.index x i) us) r) :
    Reads (accesses · calls x (.lbracket :: ts)) r := by
  apply Reads.step
  refine hi.bind ?_
  exact hrest

theorem reads_member {n : Text} {calls : Bool} (hrest : Reads (accesses · calls (.member x n) ts) r) :
    Reads (accesses · calls x (.dot :: .name n :: ts)) r :=
  hrest.step

theorem items_eq (k : Nat) (ht : t = .spread ∨ t.begins = true) :
    items (k + 1) (t :: ts) = (item k (t :: ts)).bind fun p =>
      match p.2 with
      | .comma :: rest => (items k rest).bind fun q => some (p.1 :: q.1, q.2)
      | rest => some ([p.1], rest) := by
  cases t <;> first | rfl | simp [Token.begins, Token.opens] at ht

theorem takes_operation (h : Takes (.operation 1) ts x) : Takes .expression ts x := by
  intro rest hrest
  exact reads_expression (h.operation hrest.mono) hrest

theorem takes_tighter {level : Nat} (hlevel : level < 7) (h : Takes (.operation (level + 1)) ts x) :
    Takes (.operation level) ts x := by
  refine .inl ⟨hlevel, ?_⟩
  intro rest r hrest hchain
  exact reads_operation hlevel (h.operation hrest) hchain

theorem takes_signed (h : Takes .signed ts x) : Takes (.operation 7) ts x :=
  .inr ⟨rfl, fun rest hrest => (h rest hrest).2⟩

theorem takes_called (ht : t.opens = true) (h : Takes .called (t :: ts) x) :
    Takes .signed (t :: ts) x := by
  intro rest hrest
  have hoperand := h rest _ (reads_accesses_stop hrest.mono)
  have hsign : signs (t :: (ts ++ rest)) = false := signs_of_opens ht
  exact ⟨reads_signed_called hsign hoperand, reads_called_operation hsign hoperand hrest⟩

theorem takes_accessed (h : Takes .accessed ts x) : Takes .called ts x := by
  intro rest r hchain
  exact h true rest r hchain

theorem takes_primary (h : Takes .primary ts x) : Takes .accessed ts x := by
  intro calls rest r hchain
  exact reads_accessed (h rest) hchain

theorem takes_operation_of_primary (ht : t.opens = true) (h : Takes .primary (t :: ts) x) :
    Takes (.operation 1) (t :: ts) x := by
  have h7 := takes_signed (takes_called ht (takes_accessed (takes_primary h)))
  have h4 := takes_tighter (by decide) (takes_tighter (by decide) (takes_tighter (by decide) h7))
  exact takes_tighter (by decide) (takes_tighter (by decide) (takes_tighter (by decide) h4))

theorem takes_parenthesized (h : Takes .expression ts x) :
    Takes .primary (.lparen :: (ts ++ [.rparen])) x := by
  intro rest
  rw [List.cons_append, List.append_assoc]
  apply Reads.step
  refine (h (.rparen :: rest) (stops_cons.2 rfl)).bind ?_
  exact Reads.pure (x, rest)

/-- The name before an arrow is first read as an operand in parentheses. -/
theorem takes_arrow {n : Text} (h : Takes .expression ts x) :
    Takes .expression (.lparen :: .name n :: .rparen :: .arrow :: ts) (.arrow n x) := by
  intro rest hrest
  have hname : Takes .primary [.name n] (.name n) := fun rest => (Reads.pure (Node.name n, rest)).step
  have hparam : Takes (.operation 1) [.lparen, .name n, .rparen] (.name n) := by
    apply takes_operation_of_primary rfl
    exact takes_parenthesized (takes_operation (takes_operation_of_primary rfl hname))
  have hstops : Stops 1 (.arrow :: (ts ++ rest)) := stops_cons.2 rfl
  apply Reads.step
  refine (hparam.operation hstops).bind ?_
  refine (h rest hrest).bind ?_
  exact Reads.pure (Node.arrow n x, rest)

theorem takes_call {args : List Node} (hx : Takes .called ts x) (hargs : Takes .items us args) :
    Takes .called (ts ++ .lparen :: (us ++ [.rparen])) (.call x args) := by
  intro rest r hchain
  rw [List.append_assoc, List.cons_append, List.append_assoc]
  exact hx _ r (reads_call (hargs .rparen rest (.inl rfl)) hchain)

theorem takes_new {args : List Node} (hx : Takes .accessed ts x) (hargs : Takes .items us args) :
    Takes .accessed (.new :: (ts ++ .lparen :: (us ++ [.rparen]))) (.new x args) := by
  intro calls rest r hchain
  rw [List.cons_append, List.append_assoc, List.cons_append, List.append_assoc]
  refine reads_accessed ?_ hchain
  apply Reads.step
  have hstop : Reads (accesses · false x (.lparen :: (us ++ .rparen :: rest)))
      (x, .lparen :: (us ++ .rparen :: rest)) := (Reads.pure _).step
  refine (hx false _ _ hstop).bind ?_
  refine (hargs .rparen rest (.inl rfl)).bind ?_
  exact Reads.pure (Node.new x args, rest)

theorem takes_array {xs : List Node} (h : Takes .items ts xs) :
    Takes .primary (.lbracket :: (ts ++ [.rbracket])) (.array xs) := by
  intro rest
  rw [List.cons_append, List.append_assoc]
  apply Reads.step
  refine (h .rbracket rest (.inr rfl)).bind ?_
  exact Reads.pure (Node.array xs, rest)

theorem takes_unary {sign : Sign} (h : Takes .signed ts x) :
    Takes .signed (sign.token :: ts) (.unary sign x) := by
  intro rest hrest
  have hsigned : Reads (signed · (sign.token :: (ts ++ rest))) (.unary sign x, rest) := by
    apply Reads.step
    cases sign with
    | minus => exact (h rest hrest).1.bind (Reads.pure (Node.unary .minus x, rest))
    | not => exact (h rest hrest).1.bind (Reads.pure (Node.unary .not x, rest))
  refine ⟨hsigned, reads_signed_operation ?_ hsigned⟩
  cases sign <;> rfl

theorem takes_plain (ht : t.begins = true) (h : Takes .expression (t :: ts) x) :
    Takes .item (t :: ts) x := by
  intro rest hrest
  refine ((h rest hrest).congr fun k => ?_).step
  cases t <;> first | rfl | cases ht

theorem takes_one (ht : t = .spread ∨ t.begins = true) (h : Takes .item (t :: ts) x) :
    Takes .items (t :: ts) [x] := by
  intro u rest hu
  have hstop : Stops 0 (u :: rest) := by
    obtain rfl | rfl := hu <;> exact stops_cons.2 rfl
  apply Reads.step
  simp only [List.cons_append, items_eq _ ht]
  refine (h (u :: rest) hstop).bind ?_
  obtain rfl | rfl := hu <;> exact Reads.pure _

theorem takes_more {xs : List Node} (ht : t = .spread ∨ t.begins = true)
    (h : Takes .item (t :: ts) x) (hrest : Takes .items us xs) :
    Takes .items (t :: ts ++ .comma :: us) (x :: xs) := by
  intro u rest hu
  apply Reads.step
  simp only [List.append_assoc, List.cons_append, items_eq _ ht]
  refine (h (.comma :: (us ++ u :: rest)) (stops_cons.2 rfl)).bind ?_
  refine (hrest u rest hu).bind ?_
  exact Reads.pure (x :: xs, u :: rest)

end Reader

/-- The reader finds every derivation. -/
theorem Derives.takes {p : Phrase} {ts : List Token} {r : p.Result} (h : Derives p ts r) :
    Reader.Takes p ts r := by
  induction h with
  | operation _ ih => exact Reader.takes_operation ih
  | conditional _ _ _ htest hthen helse =>
    intro rest hrest
    rw [List.append_assoc, List.cons_append, List.append_assoc, List.cons_append]
    exact Reader.reads_conditional (htest.operation (stops_cons.2 rfl))
      (hthen _ (stops_cons.2 rfl)) (helse rest hrest)
  | arrow _ ih => exact Reader.takes_arrow ih
  | tighter hlevel _ ih => exact Reader.takes_tighter hlevel ih
  | @binary op ts us x y hop _ _ hx hy =>
    have hlevel : op.level < 7 := by cases op <;> first | decide | exact absurd rfl hop
    refine .inl ⟨hlevel, fun rest r hrest hchain => ?_⟩
    obtain ⟨_, hx⟩ | ⟨heq, _⟩ := hx
    · rw [List.append_assoc, List.cons_append]
      refine hx _ r ?_ (Reader.reads_operations (hy.operation hrest) hchain)
      simp [stops_cons, Token.continues]
    · omega
  | power hbase _ hx hy =>
    refine .inr ⟨rfl, fun rest hrest => ?_⟩
    obtain ⟨t, ts, rfl, ht⟩ := hbase.starts
    rw [List.append_assoc, List.cons_append]
    refine Reader.reads_power (Reader.signs_of_opens ht) (hx _ _ ?_) (hy.operation hrest)
    exact Reader.reads_accesses_stop (stops_cons.2 rfl)
  | signed _ ih => exact Reader.takes_signed ih
  | unary _ ih => exact Reader.takes_unary ih
  | called hx ih =>
    obtain ⟨t, ts, rfl, ht⟩ := hx.starts
    exact Reader.takes_called ht ih
  | call _ _ hx hargs => exact Reader.takes_call hx hargs
  | index _ _ hx hi =>
    intro rest r hchain
    rw [List.append_assoc, List.cons_append, List.append_assoc]
    exact hx _ r (Reader.reads_index (hi _ (stops_cons.2 rfl)) hchain)
  | member _ ih =>
    intro rest r hchain
    rw [List.append_assoc]
    exact ih _ r (Reader.reads_member hchain)
  | accessed _ ih => exact Reader.takes_accessed ih
  | accessedIndex _ _ hx hi =>
    intro calls rest r hchain
    rw [List.append_assoc, List.cons_append, List.append_assoc]
    exact hx calls _ r (Reader.reads_index (hi _ (stops_cons.2 rfl)) hchain)
  | accessedMember _ ih =>
    intro calls rest r hchain
    rw [List.append_assoc]
    exact ih calls _ r (Reader.reads_member hchain)
  | new _ _ hx hargs => exact Reader.takes_new hx hargs
  | primary _ ih => exact Reader.takes_primary ih
  | name | this | number | string | bool => exact fun rest => (Reads.pure (_, rest)).step
  | array _ ih => exact Reader.takes_array ih
  | parenthesized _ ih => exact Reader.takes_parenthesized ih
  | plain hx ih =>
    obtain ⟨t, ts, rfl, ht⟩ := hx.starts
    exact Reader.takes_plain ht ih
  | spread _ ih =>
    intro rest hrest
    apply Reads.step
    refine (ih rest hrest).bind ?_
    exact Reads.pure (_, rest)
  | none =>
    intro t rest ht
    obtain rfl | rfl := ht <;> exact (Reads.pure _).step
  | one hx ih =>
    obtain ⟨t, ts, rfl, ht⟩ := hx.starts
    exact Reader.takes_one ht ih
  | more hx _ ih hrest =>
    obtain ⟨t, ts, rfl, ht⟩ := hx.starts
    exact Reader.takes_more ht ih hrest

/-- The tokens of an expression have one tree. -/
theorem Derives.unique {ts : List Token} {x y : Node} (hx : Derives .expression ts x)
    (hy : Derives .expression ts y) : x = y := by
  have hreads := (hx.takes [] (stops_nil 0)).unique (hy.takes [] (stops_nil 0))
  exact congrArg Prod.fst hreads

end PeakLang.Js
