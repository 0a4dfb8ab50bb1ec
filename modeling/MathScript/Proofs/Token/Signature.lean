import MathScript.Proofs.Code.Literal
import MathScript.Proofs.Token.Shape

/-!
# What a signature tells

A signature writes the kind and the text of every token, with spaces in between.  A
string literal may hold spaces, and what looks like further tokens, but it ends at its
closing quote; the text of any other token ends at the first space.  So the tokens can
be told apart again.

* `Token.signature_inj`: **what a token contributes is determined**, with a rest behind it.
* `signature_eq_iff`: texts share a signature exactly where their tokens agree in kind
  and text.
-/

namespace MathScript

/-! ## Kinds -/

/-- The kind that goes by a name. -/
def TokenKind.ofName? (name : String) : Option TokenKind :=
  (tokenRules.map Prod.fst).find? (·.name == name)

theorem TokenKind.ofName?_name (kind : TokenKind) : ofName? kind.name = some kind := by
  cases kind <;> decide

theorem TokenKind.name_injective : Function.Injective TokenKind.name := by
  intro j k h
  have hname := congrArg ofName? h
  rw [ofName?_name, ofName?_name] at hname
  exact Option.some.inj hname

theorem TokenKind.colon_notMem (kind : TokenKind) : ':' ∉ kind.name.toList := by
  cases kind <;> decide

/-! ## Tokens -/

namespace Token

/-- The text of the token ends at a quote of its own, or at a space behind it. -/
structure Delimited (t : Token) : Prop where
  quoted : t.kind = .stringLiteral → IsQuoted t.text
  solid : t.kind ≠ .stringLiteral → ' ' ∉ t.text.toList

theorem delimited_of_mem {source : String} {t : Token} (h : t ∈ (Tape.ofString source).tokens) :
    t.Delimited :=
  ⟨isQuoted_of_mem h, space_notMem_of_mem h⟩

/-- Behind a token comes a space, or nothing. -/
def Ends (rest : List Char) : Prop :=
  ∀ c ∈ rest.head?, c = ' '

variable {t u : Token} {r s : List Char}

theorem text_inj (ht : t.Delimited) (hu : u.Delimited) (hk : t.kind = u.kind) (hr : Ends r)
    (hs : Ends s) (h : t.text.toList ++ r = u.text.toList ++ s) : t.text = u.text ∧ r = s := by
  by_cases hq : t.kind = .stringLiteral
  · obtain ⟨body, htext, hbody⟩ := ht.quoted hq
    obtain ⟨body', utext, hbody'⟩ := hu.quoted (hk ▸ hq)
    rw [htext, utext] at h
    have hbodies : body ++ ('"' :: r) = body' ++ ('"' :: s) := by simpa using h
    have hinside : ∀ {b : List Char}, IsQuotable b → ∀ c ∈ b, (c != '"') = true :=
      fun hb c hc => bne_iff_ne.mpr (hb c hc).1
    obtain ⟨rfl, hrest⟩ := run_inj hbodies (hinside hbody) (hinside hbody') (by simp) (by simp)
    exact ⟨String.toList_inj.mp (htext.trans utext.symm), (List.cons.inj hrest).2⟩
  · have hsolid : ∀ {v : Token}, ' ' ∉ v.text.toList → ∀ c ∈ v.text.toList, (c != ' ') = true := by
      rintro v hv c hc
      rw [bne_iff_ne]
      rintro rfl
      exact hv hc
    have hends : ∀ {rest : List Char}, Ends rest → ∀ c ∈ rest.head?, (c != ' ') = false :=
      fun hrest c hc => by rw [hrest c hc]; rfl
    obtain ⟨htext, hrest⟩ := run_inj h (hsolid (ht.solid hq)) (hsolid (hu.solid (hk ▸ hq)))
      (hends hr) (hends hs)
    exact ⟨String.toList_inj.mp htext, hrest⟩

/-- **What a token contributes is determined.** -/
theorem signature_inj (ht : t.Delimited) (hu : u.Delimited) (hr : Ends r) (hs : Ends s)
    (h : t.signature.toList ++ r = u.signature.toList ++ s) :
    (t.kind, t.text) = (u.kind, u.text) ∧ r = s := by
  have hshape : t.kind.name.toList ++ ':' :: (t.text.toList ++ r) =
      u.kind.name.toList ++ ':' :: (u.text.toList ++ s) := by
    simpa [signature] using h
  have hname : ∀ k : TokenKind, ∀ c ∈ k.name.toList, (c != ':') = true := by
    rintro k c hc
    rw [bne_iff_ne]
    rintro rfl
    exact k.colon_notMem hc
  obtain ⟨hnames, htexts⟩ := run_inj hshape (hname _) (hname _) (by simp) (by simp)
  have hk : t.kind = u.kind := TokenKind.name_injective (String.toList_inj.mp hnames)
  obtain ⟨htext, hrest⟩ := text_inj ht hu hk hr hs (List.cons.inj htexts).2
  exact ⟨Prod.ext hk htext, hrest⟩

end Token

/-! ## Texts -/

/-- The rest of a signature, behind its first token. -/
def furtherSignatures (ts : List Token) : List Char :=
  ts.flatMap fun t => ' ' :: t.signature.toList

theorem toList_intercalate_signature (t : Token) (ts : List Token) :
    (" ".intercalate ((t :: ts).map Token.signature)).toList =
      t.signature.toList ++ furtherSignatures ts := by
  induction ts generalizing t with
  | nil => simp [furtherSignatures]
  | cons u ts ih =>
    rw [List.map_cons, List.map_cons, String.intercalate_cons_cons, String.toList_append,
      ← List.map_cons, ih]
    simp [furtherSignatures]

theorem ends_furtherSignatures (ts : List Token) : Token.Ends (furtherSignatures ts) := by
  cases ts with
  | nil => simp [furtherSignatures, Token.Ends]
  | cons t ts => simp [furtherSignatures, Token.Ends]

theorem furtherSignatures_inj {ts us : List Token} (hts : ∀ t ∈ ts, t.Delimited)
    (hus : ∀ u ∈ us, u.Delimited) (h : furtherSignatures ts = furtherSignatures us) :
    ts.map (fun t => (t.kind, t.text)) = us.map fun u => (u.kind, u.text) := by
  induction ts generalizing us with
  | nil =>
    cases us with
    | nil => rfl
    | cons u us => cases h
  | cons t ts ih =>
    cases us with
    | nil => cases h
    | cons u us =>
      obtain ⟨ht, hts⟩ := List.forall_mem_cons.mp hts
      obtain ⟨hu, hus⟩ := List.forall_mem_cons.mp hus
      have hfirst : t.signature.toList ++ furtherSignatures ts =
          u.signature.toList ++ furtherSignatures us := (List.cons.inj h).2
      obtain ⟨htu, hrest⟩ := Token.signature_inj ht hu (ends_furtherSignatures ts)
        (ends_furtherSignatures us) hfirst
      rw [List.map_cons, List.map_cons, htu, ih hts hus hrest]

theorem intercalate_signature_ne (t : Token) (ts : List Token) :
    " ".intercalate ((t :: ts).map Token.signature) ≠ "" := by
  intro h
  have hempty := congrArg String.toList h
  rw [toList_intercalate_signature] at hempty
  simp [Token.signature] at hempty

/-- **The kinds and texts of some tokens are determined by what they contribute.** -/
theorem intercalate_signature_inj {ts us : List Token} (hts : ∀ t ∈ ts, t.Delimited)
    (hus : ∀ u ∈ us, u.Delimited)
    (h : " ".intercalate (ts.map Token.signature) = " ".intercalate (us.map Token.signature)) :
    ts.map (fun t => (t.kind, t.text)) = us.map fun u => (u.kind, u.text) := by
  refine furtherSignatures_inj hts hus ?_
  cases ts with
  | nil =>
    cases us with
    | nil => rfl
    | cons u us => exact absurd h.symm (intercalate_signature_ne u us)
  | cons t ts =>
    cases us with
    | nil => exact absurd h (intercalate_signature_ne t ts)
    | cons u us =>
      have hlist := congrArg String.toList h
      rw [toList_intercalate_signature, toList_intercalate_signature] at hlist
      exact congrArg (' ' :: ·) hlist

theorem signature_of_tokenize {source : String} {ts : List Token} (h : tokenize source = .ok ts) :
    signature source = .ok (" ".intercalate (ts.map Token.signature)) := by
  unfold signature
  rw [h]
  rfl

theorem delimited_of_tokenize {source : String} {ts : List Token} (h : tokenize source = .ok ts) :
    ∀ t ∈ ts, t.Delimited := by
  obtain ⟨line, htape⟩ := tape_of_tokenize h
  intro t ht
  have hmem : t ∈ (Tape.ofString source).tokens := by rwa [htape]
  exact Token.delimited_of_mem hmem

/-- **Texts share a signature exactly where their tokens agree in kind and text.** -/
theorem signature_eq_iff {a b : String} {ts us : List Token} (ha : tokenize a = .ok ts)
    (hb : tokenize b = .ok us) :
    signature a = signature b ↔
      ts.map (fun t => (t.kind, t.text)) = us.map fun u => (u.kind, u.text) := by
  rw [signature_of_tokenize ha, signature_of_tokenize hb, Except.ok.injEq]
  constructor
  · exact intercalate_signature_inj (delimited_of_tokenize ha) (delimited_of_tokenize hb)
  · intro h
    have hmap := congrArg (List.map fun p : TokenKind × String => p.1.name ++ ":" ++ p.2) h
    rw [List.map_map, List.map_map] at hmap
    exact congrArg (" ".intercalate ·) hmap

end MathScript
