import Mathlib
import MathScript.Json.Printer
import MathScript.Json.Reader

/-!
# Spellings of JSON values

`Spells n j cs` says that the characters `cs` are a spelling of the value `j` in
which at most `n` containers nest.  White space stands where JSON allows it, so
one value has many spellings; numbers are left out, since no record holds one.

* `readValue_of_spells`: **the reader reads a spelling back**, whatever follows
  it, and gives back what follows.
* `spells_compact`, `spells_pretty`: the compact and the indented form of a value
  in normal form (`Normal`) are spellings of it.
* `compact_injective`: values in normal form with one compact form are equal.
-/

namespace MathScript.Json

open Text (Reader)

/-! ## White space -/

/-- Nothing but white space. -/
def Blank (cs : List Char) : Prop := ∀ c ∈ cs, isSpace c = true

theorem blank_nil : Blank [] := by
  intro c hc
  cases hc

theorem blank_replicate (n : Nat) : Blank (List.replicate n ' ') := by
  intro c hc
  rw [(List.mem_replicate.mp hc).2]
  rfl

theorem blank_newLine (level : Nat) : Blank (newLine level) := by
  intro c hc
  rcases List.mem_cons.mp hc with rfl | hc
  · rfl
  · exact blank_replicate _ c hc

theorem skipSpace_append {ws : List Char} (h : Blank ws) (cs : List Char) :
    skipSpace (ws ++ cs) = skipSpace cs :=
  List.dropWhile_append_of_pos h

theorem skipSpace_cons {c : Char} (h : isSpace c = false) (cs : List Char) :
    skipSpace (c :: cs) = c :: cs := by
  rw [skipSpace, List.dropWhile_cons_of_neg (by simp [h])]

/-- White space in front of a text that starts with something else is skipped. -/
theorem skipSpace_blank_cons {ws : List Char} (h : Blank ws) {c : Char} (hc : isSpace c = false)
    (cs : List Char) : skipSpace (ws ++ c :: cs) = c :: cs := by
  rw [skipSpace_append h, skipSpace_cons hc]

/-! ## Strings -/

theorem ofNat_hexDigits {c : Char} (h : c.toNat < 0x20) :
    Char.ofNat ((0 * 16 + 0) * 256 + (c.toNat / 16 % 16 * 16 + c.toNat % 16)) = c := by
  rw [show (0 * 16 + 0) * 256 + (c.toNat / 16 % 16 * 16 + c.toNat % 16) = c.toNat by omega]
  exact Char.ofNat_toNat c

/-- **An escaped character is read back.** -/
theorem readChar_escapeChar (c : Char) (rest : List Char) :
    readChar (escapeChar c ++ rest) = some (c, rest) := by
  unfold escapeChar
  split
  · next h => subst h; rfl
  split
  · next h => subst h; rfl
  split
  · next hlow =>
    split
    · next h => subst h; rfl
    split
    · next h => subst h; rfl
    split
    · next h => subst h; rfl
    split
    · next h => subst h; rfl
    split
    · next h => subst h; rfl
    · have hzero : Text.hexValue? '0' = some 0 := rfl
      have hunit := ofNat_hexDigits hlow
      simp only [List.cons_append, List.nil_append, readChar, readCodePoint, readUnit, hzero,
        Text.hexValue?_hexDigit, Option.bind_eq_bind, Option.bind_some, Option.pure_def]
      rw [if_neg (by simp; omega), if_neg (by simp; omega), hunit]
  · next hquote hslash hlow =>
    simp only [List.cons_append, List.nil_append]
    rw [readChar]
    · rw [if_neg hlow]
    · intro cs he
      simp_all
    · intro e cs he
      simp_all
    · intro he
      simp_all

/-- An escaped character does not start with a quote. -/
theorem escapeChar_eq_cons (c : Char) : ∃ d ds, escapeChar c = d :: ds ∧ d ≠ '"' := by
  unfold escapeChar
  repeat' split
  all_goals first
    | exact ⟨_, _, rfl, by decide⟩
    | exact ⟨_, _, rfl, by assumption⟩

theorem readChars_escaped :
    ∀ (cs ahead rest : List Char), cs.length < ahead.length →
      readChars ahead (cs.flatMap escapeChar ++ '"' :: rest) = some (cs, rest)
  | _, [], _, h => absurd h (by simp)
  | [], _ :: _, _, _ => rfl
  | c :: cs, a :: ahead, rest, h => by
    have ih := readChars_escaped cs ahead rest (by simpa using h)
    have hc := readChar_escapeChar c (cs.flatMap escapeChar ++ '"' :: rest)
    obtain ⟨d, ds, hd, hq⟩ := escapeChar_eq_cons c
    rw [List.flatMap_cons, List.append_assoc]
    rw [hd, List.cons_append] at hc ⊢
    rw [readChars]
    · simp only [hc, ih, Option.bind_eq_bind, Option.bind_some, Option.pure_def]
    · intro cs he
      exact hq (List.cons.inj he).1

theorem length_le_length_escaped : ∀ cs : List Char, cs.length ≤ (cs.flatMap escapeChar).length
  | [] => Nat.le_refl 0
  | c :: cs => by
    have ih := length_le_length_escaped cs
    obtain ⟨d, ds, hd, -⟩ := escapeChar_eq_cons c
    rw [List.flatMap_cons, hd, List.length_append, List.length_cons, List.length_cons]
    omega

/-- **A written string is read back**, behind its opening quote. -/
theorem readStringRest_escaped (s : String) (rest : List Char) :
    readStringRest (s.toList.flatMap escapeChar ++ '"' :: rest) = some (s, rest) := by
  have hlen : s.toList.length < (s.toList.flatMap escapeChar ++ '"' :: rest).length := by
    have := length_le_length_escaped s.toList
    rw [List.length_append, List.length_cons]
    omega
  rw [readStringRest, readChars_escaped s.toList _ rest hlen, Option.map_some, String.ofList_toList]

theorem stringChars_append (s : String) (rest : List Char) :
    stringChars s ++ rest = '"' :: (s.toList.flatMap escapeChar ++ '"' :: rest) := by
  simp [stringChars]

/-! ## Spellings -/

mutual

/-- `cs` is a spelling of a value, with at most `n` containers nesting in it and
no white space at its ends. -/
inductive Spells : Nat → Json → List Char → Prop
  | null {n : Nat} : Spells n .null ['n', 'u', 'l', 'l']
  | yes {n : Nat} : Spells n (.bool true) ['t', 'r', 'u', 'e']
  | no {n : Nat} : Spells n (.bool false) ['f', 'a', 'l', 's', 'e']
  | string {n : Nat} (s : String) : Spells n (.string s) (stringChars s)
  | emptyArray {n : Nat} {ws : List Char} : Blank ws →
      Spells (n + 1) (.array []) ('[' :: (ws ++ [']']))
  | array {n : Nat} {ws cs : List Char} {items : List Json} : Blank ws →
      SpellsItems n items cs → Spells (n + 1) (.array items) ('[' :: (ws ++ cs))
  | emptyObject {n : Nat} {ws : List Char} : Blank ws →
      Spells (n + 1) (.ofFields []) ('\x7b' :: (ws ++ ['\x7d']))
  | object {n : Nat} {ws cs : List Char} {fields : List (String × Json)} : Blank ws →
      SpellsFields n fields cs → Spells (n + 1) (.ofFields fields) ('\x7b' :: (ws ++ cs))

/-- `cs` spells some items, at least one, and the bracket behind them. -/
inductive SpellsItems : Nat → List Json → List Char → Prop
  | last {n : Nat} {j : Json} {cs ws : List Char} : Spells n j cs → Blank ws →
      SpellsItems n [j] (cs ++ (ws ++ [']']))
  | more {n : Nat} {j : Json} {js : List Json} {cs ws ws' ds : List Char} : Spells n j cs →
      Blank ws → Blank ws' → SpellsItems n js ds →
      SpellsItems n (j :: js) (cs ++ (ws ++ ',' :: (ws' ++ ds)))

/-- `cs` spells some fields, at least one, and the brace behind them. -/
inductive SpellsFields : Nat → List (String × Json) → List Char → Prop
  | last {n : Nat} {key : String} {j : Json} {cs ws ws' : List Char} : Blank ws → Spells n j cs →
      Blank ws' →
      SpellsFields n [(key, j)] (stringChars key ++ ':' :: (ws ++ cs ++ (ws' ++ ['\x7d'])))
  | more {n : Nat} {key : String} {j : Json} {fields : List (String × Json)}
      {cs ws ws' ws'' ds : List Char} : Blank ws → Spells n j cs → Blank ws' → Blank ws'' →
      SpellsFields n fields ds →
      SpellsFields n ((key, j) :: fields)
        (stringChars key ++ ':' :: (ws ++ cs ++ (ws' ++ ',' :: (ws'' ++ ds))))

end

/-- A spelling does not start with white space, nor with a closing bracket. -/
theorem Spells.eq_cons {n : Nat} {j : Json} {cs : List Char} (h : Spells n j cs) :
    ∃ c ds, cs = c :: ds ∧ isSpace c = false ∧ c ≠ ']' := by
  cases h <;> exact ⟨_, _, rfl, rfl, by decide⟩

theorem SpellsItems.eq_cons {n : Nat} {js : List Json} {cs : List Char} (h : SpellsItems n js cs) :
    ∃ c ds, cs = c :: ds ∧ isSpace c = false ∧ c ≠ ']' := by
  cases h with
  | last h _ | more h _ _ _ =>
    obtain ⟨c, ds, rfl, hc⟩ := h.eq_cons
    exact ⟨c, _, rfl, hc⟩

/-- Each item takes a character. -/
theorem SpellsItems.length_le : ∀ {n : Nat} {js : List Json} {cs : List Char},
    SpellsItems n js cs → js.length ≤ cs.length
  | _, _, _, .last _ _ => by simp; omega
  | _, _, _, .more h _ _ hs => by
    obtain ⟨c, ds, rfl, -⟩ := h.eq_cons
    have := hs.length_le
    simp only [List.length_cons, List.length_append]
    omega

theorem SpellsFields.length_le : ∀ {n : Nat} {fields : List (String × Json)} {cs : List Char},
    SpellsFields n fields cs → fields.length ≤ cs.length
  | _, _, _, .last _ _ _ => by simp; omega
  | _, _, _, .more _ _ _ _ hs => by
    have := hs.length_le
    simp only [List.length_cons, List.length_append]
    omega

theorem SpellsFields.eq_cons {n : Nat} {fields : List (String × Json)} {cs : List Char}
    (h : SpellsFields n fields cs) : ∃ ds, cs = '"' :: ds := by
  cases h <;> exact ⟨_, rfl⟩

/-! ## Reading spellings -/

theorem readValue_scalar (n : Nat) {ws : List Char} (hws : Blank ws) {c : Char} (cs : List Char)
    (hspace : isSpace c = false) (hbracket : c ≠ '[') (hbrace : c ≠ '\x7b') :
    readValue n (ws ++ c :: cs) = readScalar (c :: cs) := by
  cases n with
  | zero => rw [readValue, skipSpace_blank_cons hws hspace]
  | succ n =>
    rw [readValue, skipSpace_blank_cons hws hspace]
    split
    · next he => exact absurd (List.cons.inj he).1 hbracket
    · next he => exact absurd (List.cons.inj he).1 hbrace
    · rfl

theorem readScalar_string (s : String) (rest : List Char) :
    readScalar (stringChars s ++ rest) = some (.string s, rest) := by
  rw [stringChars_append, readScalar, readStringRest_escaped, Option.map_some]

theorem readItems_last {value : Reader Json} {a : Char} {ahead cs ws rest : List Char} {j : Json}
    (hv : value cs = some (j, ws ++ ']' :: rest)) (hws : Blank ws) :
    readItems value (a :: ahead) cs = some ([j], rest) := by
  simp only [readItems, hv, Option.bind_eq_bind, Option.bind_some]
  rw [skipSpace_blank_cons hws (by decide)]
  rfl

theorem readItems_more {value : Reader Json} {a : Char} {ahead cs ws ds rest : List Char} {j : Json}
    {js : List Json} (hv : value cs = some (j, ws ++ ',' :: ds)) (hws : Blank ws)
    (hs : readItems value ahead ds = some (js, rest)) :
    readItems value (a :: ahead) cs = some (j :: js, rest) := by
  simp only [readItems, hv, Option.bind_eq_bind, Option.bind_some]
  rw [skipSpace_blank_cons hws (by decide)]
  simp only [hs, Option.bind_some, Option.pure_def]

theorem readField_eq {value : Reader Json} {key : String} {cs ws rest : List Char} {j : Json}
    (hws : Blank ws) (hv : value cs = some (j, rest)) :
    readField value (ws ++ (stringChars key ++ ':' :: cs)) = some ((key, j), rest) := by
  rw [stringChars_append, readField, skipSpace_blank_cons hws (by decide)]
  simp only [readStringRest_escaped, Option.bind_eq_bind, Option.bind_some]
  rw [skipSpace_cons (by decide)]
  simp only [hv, Option.bind_some, Option.pure_def]

theorem readFields_last {value : Reader Json} {a : Char} {ahead cs ws rest : List Char}
    {f : String × Json} (hf : readField value cs = some (f, ws ++ '\x7d' :: rest))
    (hws : Blank ws) : readFields value (a :: ahead) cs = some ([f], rest) := by
  simp only [readFields, hf, Option.bind_eq_bind, Option.bind_some]
  rw [skipSpace_blank_cons hws (by decide)]
  rfl

theorem readFields_more {value : Reader Json} {a : Char} {ahead cs ws ds rest : List Char}
    {f : String × Json} {fs : List (String × Json)}
    (hf : readField value cs = some (f, ws ++ ',' :: ds)) (hws : Blank ws)
    (hs : readFields value ahead ds = some (fs, rest)) :
    readFields value (a :: ahead) cs = some (f :: fs, rest) := by
  simp only [readFields, hf, Option.bind_eq_bind, Option.bind_some]
  rw [skipSpace_blank_cons hws (by decide)]
  simp only [hs, Option.bind_some, Option.pure_def]

mutual

/-- **The reader reads a spelling back**, behind white space and in front of
anything. -/
theorem readValue_of_spells : ∀ {n : Nat} {j : Json} {cs : List Char}, Spells n j cs →
    ∀ {ws : List Char}, Blank ws → ∀ rest, readValue n (ws ++ (cs ++ rest)) = some (j, rest)
  | n, _, _, .null, _, hws, _ => readValue_scalar n hws _ (by decide) (by decide) (by decide)
  | n, _, _, .yes, _, hws, _ => readValue_scalar n hws _ (by decide) (by decide) (by decide)
  | n, _, _, .no, _, hws, _ => readValue_scalar n hws _ (by decide) (by decide) (by decide)
  | n, _, _, .string s, _, hws, rest => by
    have h := readScalar_string s rest
    rw [stringChars_append] at h ⊢
    rw [readValue_scalar n hws _ (by decide) (by decide) (by decide), h]
  | _, _, _, .emptyArray hin, _, hws, rest => by
    rw [List.cons_append, readValue, skipSpace_blank_cons hws (by decide), List.append_assoc]
    simp only [readArrayRest]
    rw [List.cons_append, skipSpace_blank_cons hin (by decide)]
    rfl
  | _, _, _, .array hin hitems, _, hws, rest => by
    have hread := fun ahead h => readItems_of_spells hitems ahead blank_nil rest h
    have hlen := hitems.length_le
    obtain ⟨c, ds, rfl, hspace, hc⟩ := hitems.eq_cons
    simp only [List.nil_append, List.cons_append, List.length_cons] at hread hlen
    rw [List.cons_append, readValue, skipSpace_blank_cons hws (by decide), List.append_assoc]
    simp only [readArrayRest]
    rw [List.cons_append, skipSpace_blank_cons hin hspace]
    split
    · next he => exact absurd (List.cons.inj he).1 hc
    · rw [hread _ (by rw [List.length_cons, List.length_append]; omega), Option.map_some]
  | _, _, _, .emptyObject hin, _, hws, rest => by
    rw [List.cons_append, readValue, skipSpace_blank_cons hws (by decide), List.append_assoc]
    simp only [readObjectRest]
    rw [List.cons_append, skipSpace_blank_cons hin (by decide)]
    rfl
  | _, _, _, .object hin hfields, _, hws, rest => by
    have hread := fun ahead h => readFields_of_spells hfields ahead blank_nil rest h
    have hlen := hfields.length_le
    obtain ⟨ds, rfl⟩ := hfields.eq_cons
    simp only [List.nil_append, List.cons_append, List.length_cons] at hread hlen
    rw [List.cons_append, readValue, skipSpace_blank_cons hws (by decide), List.append_assoc]
    simp only [readObjectRest]
    rw [List.cons_append, skipSpace_blank_cons hin (by decide)]
    split
    · next he => exact absurd (List.cons.inj he).1 (by decide)
    · rw [hread _ (by rw [List.length_cons, List.length_append]; omega), Option.map_some]

theorem readItems_of_spells : ∀ {n : Nat} {js : List Json} {cs : List Char}, SpellsItems n js cs →
    ∀ (ahead : List Char) {ws : List Char}, Blank ws → ∀ rest, js.length ≤ ahead.length →
      readItems (readValue n) ahead (ws ++ (cs ++ rest)) = some (js, rest)
  | _, _, _, .last h hin, a :: _, _, hws, rest, _ => by
    have hv := readValue_of_spells h hws
    simp only [List.append_assoc, List.cons_append, List.nil_append]
    exact readItems_last (hv _) hin
  | _, _, _, .more h hin hin' hs, a :: ahead, _, hws, rest, hlen => by
    have ih := readItems_of_spells hs ahead hin' rest (by simpa using hlen)
    have hv := readValue_of_spells h hws
    simp only [List.append_assoc, List.cons_append]
    exact readItems_more (hv _) hin ih

theorem readFields_of_spells : ∀ {n : Nat} {fs : List (String × Json)} {cs : List Char},
    SpellsFields n fs cs → ∀ (ahead : List Char) {ws : List Char}, Blank ws → ∀ rest,
      fs.length ≤ ahead.length →
        readFields (readValue n) ahead (ws ++ (cs ++ rest)) = some (fs, rest)
  | _, _, _, .last hin h hin', a :: _, _, hws, rest, _ => by
    have hv := readValue_of_spells h hin
    simp only [List.append_assoc, List.cons_append, List.nil_append]
    exact readFields_last (readField_eq hws (hv _)) hin'
  | _, _, _, .more hin h hin' hin'' hs, a :: ahead, _, hws, rest, hlen => by
    have hv := readValue_of_spells h hin
    have ih := readFields_of_spells hs ahead hin'' rest (by simpa using hlen)
    simp only [List.append_assoc, List.cons_append]
    exact readFields_more (readField_eq hws (hv _)) hin' ih

end

/-! ## Normal form -/

mutual

/-- No numbers, and the fields of every object in the order of their keys. -/
def Normal : Json → Prop
  | .number _ => False
  | .array items => NormalItems items
  | .object fields => fields.Pairwise (fun f g => f.1 < g.1) ∧ NormalFields fields
  | _ => True
termination_by structural j => j

def NormalItems : List Json → Prop
  | [] => True
  | j :: js => j.Normal ∧ NormalItems js
termination_by structural js => js

def NormalFields : List (String × Json) → Prop
  | [] => True
  | f :: fs => NormalField f ∧ NormalFields fs
termination_by structural fs => fs

def NormalField : String × Json → Prop
  | (_, j) => j.Normal
termination_by structural f => f

end

/-- A key above all others goes to the end. -/
theorem insertField_of_lt (key : String) (value : Json) :
    ∀ fields : List (String × Json), (∀ f ∈ fields, f.1 < key) →
      insertField key value fields = fields ++ [(key, value)]
  | [], _ => rfl
  | (k, v) :: rest, h => by
    have hk : k < key := h (k, v) (by simp)
    have hne : key ≠ k := by
      rintro rfl
      exact String.lt_irrefl _ hk
    rw [insertField, if_neg hne, if_neg (String.lt_asymm hk),
      insertField_of_lt key value rest (fun f hf => h f (List.mem_cons_of_mem _ hf))]
    rfl

theorem foldl_insertField : ∀ fields front : List (String × Json),
    (front ++ fields).Pairwise (fun f g => f.1 < g.1) →
      fields.foldl (fun sorted f => insertField f.1 f.2 sorted) front = front ++ fields
  | [], front, _ => by rw [List.foldl_nil, List.append_nil]
  | f :: fields, front, h => by
    have hlt : ∀ g ∈ front, g.1 < f.1 := fun g hg =>
      (List.pairwise_append.mp h).2.2 g hg f (by simp)
    have h' : (front ++ [f] ++ fields).Pairwise (fun f g => f.1 < g.1) := by
      rwa [List.append_assoc]
    rw [List.foldl_cons, insertField_of_lt f.1 f.2 front hlt, foldl_insertField fields _ h',
      List.append_assoc]
    rfl

/-- Fields in the order of their keys stay as they are. -/
theorem ofFields_of_sorted {fields : List (String × Json)}
    (h : fields.Pairwise (fun f g => f.1 < g.1)) : ofFields fields = .object fields := by
  rw [ofFields, foldl_insertField fields [] h, List.nil_append]

/-! ## The two written forms -/

mutual

/-- **The compact form is a spelling.** -/
theorem spells_compact : ∀ (j : Json) {n : Nat}, j.Normal → j.nesting ≤ n →
    Spells n j (compactChars j)
  | .null, _, _, _ => .null
  | .bool true, _, _, _ => .yes
  | .bool false, _, _, _ => .no
  | .number _, _, h, _ => False.elim h
  | .string s, _, _, _ => .string s
  | .array _, 0, _, hn => absurd hn (by rw [nesting]; omega)
  | .object _, 0, _, hn => absurd hn (by rw [nesting]; omega)
  | .array [], n + 1, _, _ => .emptyArray blank_nil
  | .array (j :: js), n + 1, h, hn => by
    rw [nesting, itemsNesting] at hn
    have hj := spells_compact j (n := n) h.1 (by omega)
    have hs := spellsItems_compact js h.2 (by omega) hj
    rw [compactChars, compactItems, List.cons_append, List.append_assoc]
    show Spells _ _ ('[' :: ([] ++ _))
    exact .array blank_nil hs
  | .object [], n + 1, _, _ => .emptyObject blank_nil
  | .object ((key, j) :: fs), n + 1, h, hn => by
    rw [nesting, fieldsNesting, fieldNesting] at hn
    have hj := spells_compact j (n := n) h.2.1 (by omega)
    have hs := spellsFields_compact fs h.2.2 (by omega) key hj
    rw [compactChars, compactFields, compactField, ← ofFields_of_sorted h.1, List.cons_append,
      List.append_assoc, List.append_assoc, List.cons_append]
    show Spells _ _ ('\x7b' :: ([] ++ _))
    exact .object blank_nil hs
termination_by j => sizeOf j

theorem spellsItems_compact : ∀ (js : List Json) {n : Nat}, NormalItems js → itemsNesting js ≤ n →
    ∀ {j : Json} {cs : List Char}, Spells n j cs →
      SpellsItems n (j :: js) (cs ++ (compactMoreItems js ++ [']']))
  | [], _, _, _, _, _, hj => .last hj blank_nil
  | j' :: js, n, h, hn, j, cs, hj => by
    rw [itemsNesting] at hn
    have hj' := spells_compact j' (n := n) h.1 (by omega)
    have hs := spellsItems_compact js h.2 (by omega) hj'
    rw [compactMoreItems, List.cons_append, List.cons_append, List.append_assoc]
    show SpellsItems _ _ (cs ++ ([] ++ ',' :: ([] ++ _)))
    exact .more hj blank_nil blank_nil hs
termination_by js => sizeOf js

theorem spellsFields_compact : ∀ (fs : List (String × Json)) {n : Nat}, NormalFields fs →
    fieldsNesting fs ≤ n → ∀ (key : String) {j : Json} {cs : List Char}, Spells n j cs →
      SpellsFields n ((key, j) :: fs)
        (stringChars key ++ ':' :: (cs ++ (compactMoreFields fs ++ ['\x7d'])))
  | [], _, _, _, _, _, _, hj => .last blank_nil hj blank_nil
  | (key', j') :: fs, n, h, hn, key, j, cs, hj => by
    rw [fieldsNesting, fieldNesting] at hn
    have hj' := spells_compact j' (n := n) h.1 (by omega)
    have hs := spellsFields_compact fs h.2 (by omega) key' hj'
    rw [compactMoreFields, compactField, List.cons_append, List.cons_append, List.append_assoc,
      List.append_assoc, List.cons_append]
    show SpellsFields _ _ (_ ++ ':' :: ([] ++ cs ++ ([] ++ ',' :: ([] ++ _))))
    exact .more blank_nil hj blank_nil blank_nil hs
termination_by fs => sizeOf fs

end

mutual

/-- **The indented form is a spelling**, at every level. -/
theorem spells_pretty : ∀ (j : Json) {n : Nat} (level : Nat), j.Normal → j.nesting ≤ n →
    Spells n j (prettyChars level j)
  | .null, _, _, _, _ => .null
  | .bool true, _, _, _, _ => .yes
  | .bool false, _, _, _, _ => .no
  | .number _, _, _, h, _ => False.elim h
  | .string s, _, _, _, _ => .string s
  | .array _, 0, _, _, hn => absurd hn (by rw [nesting]; omega)
  | .object _, 0, _, _, hn => absurd hn (by rw [nesting]; omega)
  | .array [], n + 1, _, _, _ => .emptyArray blank_nil
  | .array (j :: js), n + 1, level, h, hn => by
    rw [nesting, itemsNesting] at hn
    have hj := spells_pretty j (n := n) (level + 1) h.1 (by omega)
    have hs := spellsItems_pretty js (level + 1) h.2 (by omega) (blank_newLine level) hj
    have he : prettyChars level (.array (j :: js)) = '[' :: (newLine (level + 1) ++
        (prettyChars (level + 1) j ++
          (prettyMoreItems (level + 1) js ++ (newLine level ++ [']'])))) := by
      simp [prettyChars]
    rw [he]
    exact .array (blank_newLine _) hs
  | .object [], n + 1, _, _, _ => .emptyObject blank_nil
  | .object ((key, j) :: fs), n + 1, level, h, hn => by
    rw [nesting, fieldsNesting, fieldNesting] at hn
    have hj := spells_pretty j (n := n) (level + 1) h.2.1 (by omega)
    have hs := spellsFields_pretty fs (level + 1) h.2.2 (by omega) (blank_newLine level) key hj
    have he : prettyChars level (.object ((key, j) :: fs)) = '\x7b' :: (newLine (level + 1) ++
        (stringChars key ++ ':' :: ([' '] ++ prettyChars (level + 1) j ++
          (prettyMoreFields (level + 1) fs ++ (newLine level ++ ['\x7d']))))) := by
      simp [prettyChars, prettyField]
    rw [he, ← ofFields_of_sorted h.1]
    exact .object (blank_newLine _) hs
termination_by j => sizeOf j

theorem spellsItems_pretty : ∀ (js : List Json) {n : Nat} (level : Nat), NormalItems js →
    itemsNesting js ≤ n → ∀ {ws : List Char}, Blank ws → ∀ {j : Json} {cs : List Char},
      Spells n j cs → SpellsItems n (j :: js) (cs ++ (prettyMoreItems level js ++ (ws ++ [']'])))
  | [], _, _, _, _, _, hws, _, _, hj => .last hj hws
  | j' :: js, n, level, h, hn, ws, hws, j, cs, hj => by
    rw [itemsNesting] at hn
    have hj' := spells_pretty j' (n := n) level h.1 (by omega)
    have hs := spellsItems_pretty js level h.2 (by omega) hws hj'
    have he : prettyMoreItems level (j' :: js) ++ (ws ++ [']']) = ',' :: (newLine level ++
        (prettyChars level j' ++ (prettyMoreItems level js ++ (ws ++ [']'])))) := by
      simp [prettyMoreItems]
    rw [he]
    show SpellsItems _ _ (cs ++ ([] ++ _))
    exact .more hj blank_nil (blank_newLine _) hs
termination_by js => sizeOf js

theorem spellsFields_pretty : ∀ (fs : List (String × Json)) {n : Nat} (level : Nat),
    NormalFields fs → fieldsNesting fs ≤ n → ∀ {ws : List Char}, Blank ws →
      ∀ (key : String) {j : Json} {cs : List Char}, Spells n j cs →
        SpellsFields n ((key, j) :: fs)
          (stringChars key ++ ':' ::
            ([' '] ++ cs ++ (prettyMoreFields level fs ++ (ws ++ ['\x7d']))))
  | [], _, _, _, _, _, hws, _, _, _, hj => .last (blank_replicate 1) hj hws
  | (key', j') :: fs, n, level, h, hn, ws, hws, key, j, cs, hj => by
    rw [fieldsNesting, fieldNesting] at hn
    have hj' := spells_pretty j' (n := n) level h.1 (by omega)
    have hs := spellsFields_pretty fs level h.2 (by omega) hws key' hj'
    have he : prettyMoreFields level ((key', j') :: fs) ++ (ws ++ ['\x7d']) = ',' ::
        (newLine level ++ (stringChars key' ++ ':' :: ([' '] ++ prettyChars level j' ++
          (prettyMoreFields level fs ++ (ws ++ ['\x7d']))))) := by
      simp [prettyMoreFields, prettyField]
    rw [he]
    show SpellsFields _ _ (_ ++ ':' :: ([' '] ++ cs ++ ([] ++ _)))
    exact .more (blank_replicate 1) hj blank_nil (blank_newLine _) hs
termination_by fs => sizeOf fs

end

/-! ## Whole texts -/

/-- A spelling alone is read to its end. -/
theorem readValue_spelling {n : Nat} {j : Json} {cs : List Char} (h : Spells n j cs) :
    readValue n cs = some (j, []) := by
  have hread := readValue_of_spells h blank_nil []
  rwa [List.nil_append, List.append_nil] at hread

theorem ofString?_of_spells {j : Json} {cs : List Char} (h : Spells maxContainers j cs) :
    ofString? (String.ofList cs) = some j := by
  rw [ofString?, String.toList_ofList, readValue_spelling h]
  rfl

/-! ## Room to spare -/

/-- `g` reads whatever `f` reads. -/
def Extends (g f : Reader Json) : Prop :=
  ∀ {cs : List Char} {r : Json × List Char}, f cs = some r → g cs = some r

theorem readItems_extends {f g : Reader Json} (h : Extends g f) {ahead cs : List Char}
    {r : List Json × List Char} (hr : readItems f ahead cs = some r) :
    readItems g ahead cs = some r := by
  induction ahead generalizing cs r with
  | nil => cases hr
  | cons a ahead ih =>
    obtain ⟨⟨v, cs'⟩, hv, hr⟩ := Option.bind_eq_some_iff.mp hr
    refine Option.bind_eq_some_iff.mpr ⟨(v, cs'), h hv, ?_⟩
    dsimp only at hr ⊢
    split at hr
    · obtain ⟨r', hr', hr⟩ := Option.bind_eq_some_iff.mp hr
      exact Option.bind_eq_some_iff.mpr ⟨r', ih hr', hr⟩
    · exact hr
    · cases hr

theorem readField_extends {f g : Reader Json} (h : Extends g f) {cs : List Char}
    {r : (String × Json) × List Char} (hr : readField f cs = some r) : readField g cs = some r := by
  unfold readField at hr ⊢
  split at hr
  · obtain ⟨⟨key, cs'⟩, hkey, hr⟩ := Option.bind_eq_some_iff.mp hr
    refine Option.bind_eq_some_iff.mpr ⟨(key, cs'), hkey, ?_⟩
    dsimp only at hr ⊢
    split at hr
    · obtain ⟨r', hr', hr⟩ := Option.bind_eq_some_iff.mp hr
      exact Option.bind_eq_some_iff.mpr ⟨r', h hr', hr⟩
    · cases hr
  · cases hr

theorem readFields_extends {f g : Reader Json} (h : Extends g f) {ahead cs : List Char}
    {r : List (String × Json) × List Char} (hr : readFields f ahead cs = some r) :
    readFields g ahead cs = some r := by
  induction ahead generalizing cs r with
  | nil => cases hr
  | cons a ahead ih =>
    obtain ⟨⟨v, cs'⟩, hv, hr⟩ := Option.bind_eq_some_iff.mp hr
    refine Option.bind_eq_some_iff.mpr ⟨(v, cs'), readField_extends h hv, ?_⟩
    dsimp only at hr ⊢
    split at hr
    · obtain ⟨r', hr', hr⟩ := Option.bind_eq_some_iff.mp hr
      exact Option.bind_eq_some_iff.mpr ⟨r', ih hr', hr⟩
    · exact hr
    · cases hr

/-- **A reader with room for more containers reads the same.** -/
theorem readValue_extends (n : Nat) : Extends (readValue (n + 1)) (readValue n) := by
  induction n with
  | zero =>
    intro cs r hr
    unfold readValue at hr ⊢
    split
    · next he =>
      rw [he] at hr
      cases hr
    · next he =>
      rw [he] at hr
      cases hr
    · exact hr
  | succ n ih =>
    intro cs r hr
    unfold readValue at hr ⊢
    split at hr
    · unfold readArrayRest at hr ⊢
      split at hr
      · exact hr
      · obtain ⟨r', hr', hr⟩ := Option.map_eq_some_iff.mp hr
        exact Option.map_eq_some_iff.mpr ⟨r', readItems_extends ih hr', hr⟩
    · unfold readObjectRest at hr ⊢
      split at hr
      · exact hr
      · obtain ⟨r', hr', hr⟩ := Option.map_eq_some_iff.mp hr
        exact Option.map_eq_some_iff.mpr ⟨r', readFields_extends ih hr', hr⟩
    · exact hr

theorem readValue_mono {n : Nat} {cs : List Char} {r : Json × List Char}
    (hr : readValue n cs = some r) (k : Nat) : readValue (n + k) cs = some r := by
  induction k with
  | zero => exact hr
  | succ k ih => exact readValue_extends (n + k) ih

/-- **What the reader makes of a spelling is what was spelled**, also where the
spelling nests too deep to be read at all. -/
theorem eq_of_ofString?_of_spells {n : Nat} {j k : Json} {cs : List Char} (h : Spells n j cs)
    (hk : ofString? (String.ofList cs) = some k) : k = j := by
  have hj := readValue_mono (readValue_spelling h) maxContainers
  unfold ofString? at hk
  rw [String.toList_ofList] at hk
  split at hk
  · next v rest hv =>
    have hv' := readValue_mono hv n
    rw [Nat.add_comm, hj] at hv'
    split at hk
    · rw [← Option.some.inj hk]
      exact (Prod.mk.inj (Option.some.inj hv')).1.symm
    · cases hk
  · cases hk

/-! ## Written texts -/

/-- **The compact form is read back.** -/
theorem ofString?_compact {j : Json} (h : j.Normal) (hn : j.nesting ≤ maxContainers) :
    ofString? j.compact = some j :=
  ofString?_of_spells (spells_compact j h hn)

/-- **The indented form is read back.** -/
theorem ofString?_pretty {j : Json} (h : j.Normal) (hn : j.nesting ≤ maxContainers) :
    ofString? j.pretty = some j :=
  ofString?_of_spells (spells_pretty j 0 h hn)

/-- **A value in normal form is determined by its compact form**, however deep it
is: a reader with room enough reads both back. -/
theorem compact_injective {j k : Json} (hj : j.Normal) (hk : k.Normal)
    (h : j.compact = k.compact) : j = k := by
  have hcs : compactChars j = compactChars k := String.ofList_injective h
  have hj' := readValue_spelling (spells_compact j (n := j.nesting + k.nesting) hj (by omega))
  have hk' := readValue_spelling (spells_compact k (n := j.nesting + k.nesting) hk (by omega))
  rw [hcs, hk'] at hj'
  exact (Prod.mk.inj (Option.some.inj hj')).1.symm

end MathScript.Json
