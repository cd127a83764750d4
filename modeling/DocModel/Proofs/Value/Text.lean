import Mathlib
import DocModel.Proofs.Merging.Directives
import DocModel.Text.Split
import DocModel.Value.Reader
import DocModel.Value.Text

/-!
# The text of a value tells the value

The compact text of a value without doubles can be told from that of every other, also with more text after
it: only a number can be gone on with, and no digit follows one. So two such values with one text are equal.

* `Reader.stringBody_quoted`: a string is read back as it was written, whatever follows.
* `intChars_separable`, `joinChars_separable`: numbers, and texts with commas between them.
* `compactChars_separable`: values by induction, a list or map by what is between its brackets.
* `compact_inj`: values with one text are equal.
-/

namespace DocModel

/-! ## Strings -/

namespace Reader

open Value (escapeChar)

theorem hexWord?_of_control : ∀ n < 0x20,
    hexWord? '0' '0' (Value.hexDigit (n / 16)) (Value.hexDigit (n % 16)) = some n := by decide

/-- An escaped character is read as itself. -/
theorem stringBody_escapeChar (c : Char) (rest : List Char) (offset : Nat) (done : List Char) :
    ∃ next, stringBody (escapeChar c ++ rest) offset done = stringBody rest next (c :: done) := by
  rw [escapeChar]
  split
  · next hquote =>
    subst hquote
    exact ⟨offset + 2, by simp [stringBody, simpleEscape?]⟩
  split
  · next hbackslash =>
    subst hbackslash
    exact ⟨offset + 2, by simp [stringBody, simpleEscape?]⟩
  split
  · next hcontrol =>
    have hc : Char.ofNat c.toNat = c := Char.ofNat_toNat c
    generalize c.toNat = n at hcontrol hc
    subst hc
    split
    case h_6 =>
      have htrailing : isTrailing n = false := by simp [isTrailing]; omega
      have hleading : isLeading n = false := by simp [isLeading]; omega
      exact ⟨offset + 6, by simp [stringBody, hexWord?_of_control n hcontrol, htrailing, hleading]⟩
    all_goals exact ⟨offset + 2, by simp [stringBody, simpleEscape?]⟩
  · next hbackslash hcontrol => exact ⟨offset + c.utf8Size, by simp [stringBody, hbackslash, hcontrol]⟩

/-- A written string is read back, and nothing of what follows. -/
theorem stringBody_quoted (cs rest : List Char) (offset : Nat) (done : List Char) :
    ∃ next, stringBody (cs.flatMap escapeChar ++ '"' :: rest) offset done =
      .ok (String.ofList (done.reverse ++ cs), ⟨rest, next⟩) := by
  induction cs generalizing offset done with
  | nil => exact ⟨offset + 1, by simp [stringBody]⟩
  | cons c cs ih =>
    obtain ⟨next, hc⟩ := stringBody_escapeChar c (cs.flatMap escapeChar ++ '"' :: rest) offset done
    obtain ⟨stop, hcs⟩ := ih next (c :: done)
    refine ⟨stop, ?_⟩
    rw [List.flatMap_cons, List.append_assoc, hc, hcs, List.reverse_cons, List.append_assoc]
    rfl

end Reader

namespace Value

theorem quoteChars_inj {s t : String} {xs ys : List Char} (h : quoteChars s ++ xs = quoteChars t ++ ys) :
    s = t ∧ xs = ys := by
  simp only [quoteChars, List.cons_append, List.append_assoc, List.nil_append, List.cons.injEq, true_and] at h
  obtain ⟨stop, hs⟩ := Reader.stringBody_quoted s.toList xs 0 []
  obtain ⟨stop', ht⟩ := Reader.stringBody_quoted t.toList ys 0 []
  rw [h, ht] at hs
  simp only [Except.ok.injEq, Prod.mk.injEq, Reader.Cursor.mk.injEq, List.reverse_nil, List.nil_append,
    String.ofList_toList] at hs
  exact ⟨hs.1.symm, hs.2.1.symm⟩

/-! ## Numbers -/

/-- What the text of an integer is made of. -/
def isNumeral (c : Char) : Bool := c.isDigit || c = '-'

/-- Nothing that goes on a number comes first. -/
def EndsNumber (cs : List Char) : Prop := ∀ c ∈ cs.head?, isNumeral c = false

/-- Before what goes on no number, the text of `x` can be told from that of every other. -/
def Separable {α : Type} (f : α → List Char) (P : α → Prop) (x : α) : Prop :=
  ∀ y, P y → ∀ xs ys, EndsNumber xs → EndsNumber ys → f x ++ xs = f y ++ ys → x = y ∧ xs = ys

theorem endsNumber_nil : EndsNumber [] := nofun

theorem endsNumber_cons {c : Char} {cs : List Char} (h : isNumeral c = false) : EndsNumber (c :: cs) := by
  rintro _ ⟨⟩
  exact h

theorem isNumeral_of_mem_intChars {n : Int} {c : Char} (h : c ∈ intChars n) : isNumeral c = true := by
  have hdigits : ∀ m : Nat, c ∈ m.repr.toList → isNumeral c = true := by
    intro m hm
    rw [Nat.repr_eq_ofList_toDigits, String.toList_ofList] at hm
    rw [isNumeral, Nat.isDigit_of_mem_toDigits (by decide) (by decide) hm, Bool.true_or]
  cases n with
  | ofNat m => exact hdigits m h
  | negSucc m =>
    rw [intChars, show toString (Int.negSucc m) = "-" ++ (m + 1).repr from rfl, String.toList_append] at h
    rcases List.mem_append.mp h with h | h
    · rw [List.mem_singleton.mp h]
      rfl
    · exact hdigits (m + 1) h

theorem intChars_ne_nil (n : Int) : intChars n ≠ [] := by
  have hdigits : ∀ m : Nat, m.repr.toList ≠ [] := by
    intro m
    rw [Nat.repr_eq_ofList_toDigits, String.toList_ofList]
    exact Nat.toDigits_ne_nil
  cases n with
  | ofNat m => exact hdigits m
  | negSucc m =>
    rw [intChars, show toString (Int.negSucc m) = "-" ++ (m + 1).repr from rfl, String.toList_append]
    exact List.append_ne_nil_of_left_ne_nil (by decide) _

theorem takeWhile_intChars (n : Int) {xs : List Char} (h : EndsNumber xs) :
    (intChars n ++ xs).takeWhile isNumeral = intChars n := by
  rw [List.takeWhile_append_of_pos fun c hc => isNumeral_of_mem_intChars hc]
  cases xs with
  | nil => simp
  | cons c cs => simp [h c rfl]

theorem intChars_separable (n : Int) : Separable intChars (fun _ => True) n := by
  intro m _ xs ys hxs hys h
  have hchars : intChars n = intChars m := by
    rw [← takeWhile_intChars n hxs, h, takeWhile_intChars m hys]
  refine ⟨Int.repr_injective (String.toList_injective hchars), ?_⟩
  rw [hchars] at h
  exact List.append_cancel_left h

/-! ## Texts with commas between them -/

section Joined

variable {α : Type} {f : α → List Char} {P : α → Prop} {close : Char}

/-- What follows a part: a comma and the other parts, or the closing bracket. -/
def joinedTail (f : α → List Char) (close : Char) : List α → List Char → List Char
  | [], xs => close :: xs
  | y :: rest, xs => ',' :: (Text.joinChars ',' ((y :: rest).map f) ++ close :: xs)

theorem joinChars_cons_append (x : α) (rest : List α) (xs : List Char) :
    Text.joinChars ',' ((x :: rest).map f) ++ close :: xs = f x ++ joinedTail f close rest xs := by
  cases rest with
  | nil => rfl
  | cons y rest => simp [Text.joinChars, joinedTail]

theorem endsNumber_joinedTail (hclose : isNumeral close = false) (rest : List α) (xs : List Char) :
    EndsNumber (joinedTail f close rest xs) := by
  cases rest with
  | nil => exact endsNumber_cons hclose
  | cons y rest => exact endsNumber_cons rfl

/-- What is written between brackets can be told if this is so of each part of it and no part begins with the
closing bracket. -/
theorem joinChars_separable (hclose : isNumeral close = false) (hcomma : close ≠ ',')
    (hfirst : ∀ x, P x → ∀ xs ys, f x ++ xs ≠ close :: ys) {items items' : List α}
    (hitems : ∀ x ∈ items, P x ∧ Separable f P x) (hitems' : ∀ y ∈ items', P y) {xs ys : List Char}
    (h : Text.joinChars ',' (items.map f) ++ close :: xs = Text.joinChars ',' (items'.map f) ++ close :: ys) :
    items = items' ∧ xs = ys := by
  induction items generalizing items' with
  | nil =>
    cases items' with
    | nil => exact ⟨rfl, (List.cons.inj h).2⟩
    | cons y rest' =>
      rw [joinChars_cons_append] at h
      exact absurd h.symm (hfirst y (hitems' y List.mem_cons_self) _ xs)
  | cons x rest ih =>
    obtain ⟨⟨hx, hsep⟩, hrest⟩ := List.forall_mem_cons.mp hitems
    rw [joinChars_cons_append] at h
    cases items' with
    | nil => exact absurd h (hfirst x hx _ ys)
    | cons y rest' =>
      obtain ⟨hy, hrest'⟩ := List.forall_mem_cons.mp hitems'
      rw [joinChars_cons_append] at h
      obtain ⟨rfl, htail⟩ := hsep y hy _ _ (endsNumber_joinedTail hclose rest xs)
        (endsNumber_joinedTail hclose rest' ys) h
      -- A comma after one part and a bracket after the other would be different texts.
      cases rest with
      | nil =>
        cases rest' with
        | nil => exact ⟨rfl, (List.cons.inj htail).2⟩
        | cons z rest' => exact absurd (List.cons.inj htail).1 hcomma
      | cons z rest =>
        cases rest' with
        | nil => exact absurd (List.cons.inj htail).1.symm hcomma
        | cons z' rest' =>
          obtain ⟨hrests, hxs⟩ := ih hrest hrest' (List.cons.inj htail).2
          exact ⟨congrArg (x :: ·) hrests, hxs⟩

end Joined

/-! ## Values -/

mutual

/-- No double anywhere. -/
def isIntegral : Value → Bool
  | number (.double _) => false
  | list items => itemsIntegral items
  | map entries => entriesIntegral entries
  | _ => true

def itemsIntegral : List Value → Bool
  | [] => true
  | x :: xs => isIntegral x && itemsIntegral xs

def entriesIntegral : List (String × Value) → Bool
  | [] => true
  | (_, v) :: rest => isIntegral v && entriesIntegral rest

end

theorem isIntegral_list_iff {items : List Value} :
    (list items).isIntegral = true ↔ ∀ v ∈ items, v.isIntegral = true := by
  rw [isIntegral]
  induction items with
  | nil => simp [itemsIntegral]
  | cons x xs ih => rw [itemsIntegral, Bool.and_eq_true, ih, List.forall_mem_cons]

theorem isIntegral_map_iff {entries : Fields} :
    (map entries).isIntegral = true ↔ ∀ e ∈ entries, e.2.isIntegral = true := by
  rw [isIntegral]
  induction entries with
  | nil => simp [entriesIntegral]
  | cons e rest ih => rw [entriesIntegral, Bool.and_eq_true, ih, List.forall_mem_cons]

theorem compactItems_eq (items : List Value) :
    compactItems items = Text.joinChars ',' (items.map compactChars) := by
  induction items with
  | nil => rfl
  | cons x rest ih =>
    cases rest with
    | nil => rfl
    | cons y rest => rw [compactItems, ih]; rfl

/-- A key, a colon and the value. -/
def entryChars (e : String × Value) : List Char := quoteChars e.1 ++ ':' :: compactChars e.2

theorem compactEntries_eq (entries : Fields) :
    compactEntries entries = Text.joinChars ',' (entries.map entryChars) := by
  induction entries with
  | nil => rfl
  | cons e rest ih =>
    cases rest with
    | nil => rfl
    | cons e' rest =>
      obtain ⟨key, v⟩ := e
      simp [compactEntries, ih, Text.joinChars, entryChars]

/-- What the first character of a text tells of the value. -/
inductive Kind where
  | null
  | bool (b : Bool)
  | number
  | string
  | list
  | map

def kind : Value → Kind
  | null => .null
  | bool b => .bool b
  | number _ => .number
  | string _ => .string
  | list _ => .list
  | map _ => .map

/-- The kind of the values that begin with a character. -/
def kindOf? (c : Char) : Option Kind :=
  if isNumeral c then some .number
  else match c with
    | 'n' => some .null
    | 't' => some (.bool true)
    | 'f' => some (.bool false)
    | '"' => some .string
    | '[' => some .list
    | '{' => some .map
    | _ => none

theorem exists_compactChars_eq_cons {v : Value} (h : v.isIntegral = true) :
    ∃ c cs, compactChars v = c :: cs ∧ kindOf? c = some v.kind := by
  cases v with
  | bool b => cases b <;> exact ⟨_, _, rfl, rfl⟩
  | number n =>
    cases n with
    | int n =>
      obtain ⟨c, cs, hn⟩ := List.exists_cons_of_ne_nil (intChars_ne_nil n)
      exact ⟨c, cs, hn, if_pos (isNumeral_of_mem_intChars (hn ▸ List.mem_cons_self))⟩
    | double d => cases h
  | _ => exact ⟨_, _, rfl, rfl⟩

theorem kind_eq {v w : Value} (hv : v.isIntegral = true) (hw : w.isIntegral = true) {xs ys : List Char}
    (h : compactChars v ++ xs = compactChars w ++ ys) : v.kind = w.kind := by
  obtain ⟨c, cs, hc, hv⟩ := exists_compactChars_eq_cons hv
  obtain ⟨d, ds, hd, hw⟩ := exists_compactChars_eq_cons hw
  rw [hc, hd] at h
  rw [← (List.cons.inj h).1, hv] at hw
  exact Option.some.inj hw

/-- No value begins with what closes a list. -/
theorem compactChars_append_ne {v : Value} (h : v.isIntegral = true) (xs ys : List Char) :
    compactChars v ++ xs ≠ ']' :: ys := by
  obtain ⟨c, cs, hc, hkind⟩ := exists_compactChars_eq_cons h
  rw [hc]
  intro heq
  obtain ⟨rfl, -⟩ := List.cons.inj heq
  cases hkind

theorem entryChars_separable {e : String × Value}
    (h : Separable compactChars (fun v => v.isIntegral = true) e.2) :
    Separable entryChars (fun e => e.2.isIntegral = true) e := by
  intro e' he' xs ys hxs hys heq
  rw [entryChars, entryChars, List.append_assoc, List.append_assoc] at heq
  obtain ⟨hkey, hrest⟩ := quoteChars_inj heq
  obtain ⟨hvalue, hxys⟩ := h e'.2 he' xs ys hxs hys (List.cons.inj hrest).2
  exact ⟨Prod.ext hkey hvalue, hxys⟩

/-- A value without doubles can be told from its text, whatever follows that goes on no number. -/
theorem compactChars_separable {v : Value} (h : v.isIntegral = true) :
    Separable compactChars (fun w => w.isIntegral = true) v := by
  induction v using induction with
  | scalar v hl hm =>
    intro w hw xs ys hxs hys heq
    have hkind := kind_eq h hw heq
    cases v with
    | null =>
      cases w with
      | null => exact ⟨rfl, List.append_cancel_left heq⟩
      | _ => cases hkind
    | bool b =>
      cases w with
      | bool b' => cases hkind; exact ⟨rfl, List.append_cancel_left heq⟩
      | _ => cases hkind
    | number n =>
      cases w with
      | number m =>
        cases n with
        | double d => cases h
        | int n =>
          cases m with
          | double d => cases hw
          | int m =>
            obtain ⟨rfl, hxys⟩ := intChars_separable n m trivial xs ys hxs hys heq
            exact ⟨rfl, hxys⟩
      | _ => cases hkind
    | string s =>
      cases w with
      | string t =>
        obtain ⟨rfl, hxys⟩ := quoteChars_inj heq
        exact ⟨rfl, hxys⟩
      | _ => cases hkind
    | list items => cases hl
    | map entries => cases hm
  | list items ih =>
    intro w hw xs ys _ _ heq
    have hkind := kind_eq h hw heq
    have hitems := isIntegral_list_iff.mp h
    cases w with
    | list items' =>
      have hinner := (List.cons.inj heq).2
      rw [List.append_eq, List.append_eq, compactItems_eq, compactItems_eq, List.append_assoc,
        List.append_assoc] at hinner
      obtain ⟨rfl, hxys⟩ := joinChars_separable rfl (by decide) (fun x hx => compactChars_append_ne hx)
        (fun x hx => ⟨hitems x hx, ih x hx (hitems x hx)⟩) (isIntegral_list_iff.mp hw) hinner
      exact ⟨rfl, hxys⟩
    | _ => cases hkind
  | map entries ih =>
    intro w hw xs ys _ _ heq
    have hkind := kind_eq h hw heq
    have hentries := isIntegral_map_iff.mp h
    cases w with
    | map entries' =>
      have hinner := (List.cons.inj heq).2
      rw [List.append_eq, List.append_eq, compactEntries_eq, compactEntries_eq, List.append_assoc,
        List.append_assoc] at hinner
      -- An entry begins with the quote of its key.
      have hfirst : ∀ e : String × Value, e.2.isIntegral = true → ∀ xs ys, entryChars e ++ xs ≠ '}' :: ys :=
        fun e _ xs ys heq => absurd (List.cons.inj heq).1 (by decide)
      obtain ⟨rfl, hxys⟩ := joinChars_separable rfl (by decide) hfirst
        (fun e he => ⟨hentries e he, entryChars_separable (ih e he (hentries e he))⟩) (isIntegral_map_iff.mp hw)
        hinner
      exact ⟨rfl, hxys⟩
    | _ => cases hkind

/-- Values without doubles that have one text are equal. -/
theorem compact_inj {v w : Value} (hv : v.isIntegral = true) (hw : w.isIntegral = true)
    (h : v.compact = w.compact) : v = w := by
  have hchars : compactChars v = compactChars w := String.ofList_injective h
  have happend := congrArg (· ++ []) hchars
  exact (compactChars_separable hv w hw [] [] endsNumber_nil endsNumber_nil happend).1

end Value

end DocModel
