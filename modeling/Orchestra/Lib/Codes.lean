-- Codes that can be told apart when other text follows them: in a row, in pairs, and in
-- lists with a separator.
import Mathlib.Data.List.Basic

namespace codes

variable {α β γ : Type} {f : α → List γ} {g : β → List γ} {E : List γ → Prop}

/-! ## Codes -/

/-- A text that begins with the code of `a` begins with no other code, as long as what
follows is in `E`. -/
def SplitsAt (f : α → List γ) (E : List γ → Prop) (a : α) : Prop :=
  ∀ b s t, E s → E t → f a ++ s = f b ++ t → a = b ∧ s = t

def Splits (f : α → List γ) (E : List γ → Prop) : Prop := ∀ a, SplitsAt f E a

def Anything (_ : List γ) : Prop := True

theorem SplitsAt.mono {D : List γ → Prop} {a : α} (h : SplitsAt f E a) (hD : ∀ s, D s → E s) :
    SplitsAt f D a :=
  fun b s t hs ht heq => h b s t (hD s hs) (hD t ht) heq

theorem SplitsAt.inj {a b : α} (h : SplitsAt f E a) (hnil : E []) (heq : f a = f b) : a = b :=
  (h b [] [] hnil hnil (by rw [heq])).1

/-- A code that can be read splits. -/
theorem splits_of_reader {read : List γ → Option (α × List γ)}
    (h : ∀ a s, E s → read (f a ++ s) = some (a, s)) : Splits f E := by
  intro a b s t hs ht heq
  have hsame : some (a, s) = some (b, t) := by rw [← h a s hs, heq, h b t ht]
  exact Prod.mk.inj (Option.some.inj hsame)

/-! ## Codes behind each other -/

theorem SplitsAt.pair {a : α} {b : β} (hf : SplitsAt f Anything a) (hg : SplitsAt g E b)
    (mid : List γ) : SplitsAt (fun p : α × β => f p.1 ++ (mid ++ g p.2)) E (a, b) := by
  rintro ⟨a', b'⟩ s t hs ht heq
  simp only [List.append_assoc] at heq
  obtain ⟨rfl, hrest⟩ := hf a' _ _ trivial trivial heq
  obtain ⟨rfl, hst⟩ := hg b' s t hs ht (List.append_cancel_left hrest)
  exact ⟨rfl, hst⟩

/-- No text that starts with a code starts with `c`. -/
def Avoids (f : α → List γ) (c : γ) : Prop := ∀ a s, (f a ++ s).head? ≠ some c

/-- Codes in a row, up to a stop. -/
theorem splits_row {stop : γ} (hf : Splits f Anything) (hstop : Avoids f stop) :
    Splits (fun as : List α => as.flatMap f ++ [stop]) Anything := by
  intro as
  induction as with
  | nil =>
    rintro (_ | ⟨b, bs⟩) s t - - heq
    · exact ⟨rfl, (List.cons.inj heq).2⟩
    · simp only [List.flatMap_cons, List.append_assoc] at heq
      exact absurd (congrArg List.head? heq.symm) (hstop b _)
  | cons a as ih =>
    rintro (_ | ⟨b, bs⟩) s t - - heq
    · simp only [List.flatMap_cons, List.append_assoc] at heq
      exact absurd (congrArg List.head? heq) (hstop a _)
    · simp only [List.flatMap_cons, List.append_assoc] at heq
      obtain ⟨rfl, hrest⟩ := hf a b _ _ trivial trivial heq
      obtain ⟨rfl, hst⟩ := ih bs s t trivial trivial
        (by simp only [List.append_assoc]; exact hrest)
      exact ⟨rfl, hst⟩

/-! ## Lists with a separator -/

/-- The codes of a list with `sep` between them, up to `stop`. -/
def listCode (f : α → List γ) (sep stop : γ) : List α → List γ
  | [] => [stop]
  | [a] => f a ++ [stop]
  | a :: b :: rest => f a ++ sep :: listCode f sep stop (b :: rest)

/-- What follows an element: the separator and more, or the stop. -/
def tailCode (f : α → List γ) (sep stop : γ) : List α → List γ
  | [] => [stop]
  | b :: rest => sep :: listCode f sep stop (b :: rest)

theorem listCode_cons (sep stop : γ) (a : α) (rest : List α) :
    listCode f sep stop (a :: rest) = f a ++ tailCode f sep stop rest := by
  cases rest <;> rfl

theorem tailCode_ends {sep stop : γ} (hE : ∀ s, E (sep :: s) ∧ E (stop :: s)) (rest : List α)
    (s : List γ) : E (tailCode f sep stop rest ++ s) := by
  cases rest with
  | nil => exact (hE s).2
  | cons b rest => exact (hE _).1

/-- A list whose elements split splits before anything, when a separator or the stop may
follow an element, and no element starts with the stop. -/
theorem splitsAt_listCode {sep stop : γ} (hne : sep ≠ stop)
    (hE : ∀ s, E (sep :: s) ∧ E (stop :: s)) (hstop : Avoids f stop) {as : List α}
    (h : ∀ a ∈ as, SplitsAt f E a) : SplitsAt (listCode f sep stop) Anything as := by
  induction as with
  | nil =>
    rintro (_ | ⟨b, bs⟩) s t - - heq
    · exact ⟨rfl, (List.cons.inj heq).2⟩
    · rw [listCode_cons, List.append_assoc] at heq
      exact absurd (congrArg List.head? heq.symm) (hstop b _)
  | cons a as ih =>
    rintro (_ | ⟨b, bs⟩) s t - - heq
    · rw [listCode_cons, List.append_assoc] at heq
      exact absurd (congrArg List.head? heq) (hstop a _)
    · rw [listCode_cons, listCode_cons, List.append_assoc, List.append_assoc] at heq
      obtain ⟨rfl, hrest⟩ := h a (List.mem_cons_self ..) b _ _ (tailCode_ends hE as s)
        (tailCode_ends hE bs t) heq
      have hmore := ih (fun a' h' => h a' (List.mem_cons_of_mem _ h'))
      rcases as with _ | ⟨a', as⟩
      · rcases bs with _ | ⟨b', bs⟩
        · exact ⟨rfl, (List.cons.inj hrest).2⟩
        · exact absurd (List.cons.inj hrest).1.symm hne
      · rcases bs with _ | ⟨b', bs⟩
        · exact absurd (List.cons.inj hrest).1 hne
        · obtain ⟨hlists, hst⟩ := hmore _ s t trivial trivial (List.cons.inj hrest).2
          exact ⟨congrArg (a :: ·) hlists, hst⟩

/-- The codes of a list with `sep` and a gap between them, up to `stop`. -/
def spacedCode (f : α → List γ) (sep stop : γ) (gap : List γ) : List α → List γ
  | [] => [stop]
  | [a] => f a ++ [stop]
  | a :: b :: rest => f a ++ sep :: (gap ++ spacedCode f sep stop gap (b :: rest))

/-- With the gap before the first element too, each element has its own. -/
theorem gap_spacedCode (sep stop : γ) (gap : List γ) (a : α) (rest : List α) :
    gap ++ spacedCode f sep stop gap (a :: rest) =
      listCode (fun a => gap ++ f a) sep stop (a :: rest) := by
  induction rest generalizing a with
  | nil => exact (List.append_assoc ..).symm
  | cons b rest ih =>
    change gap ++ (f a ++ sep :: (gap ++ spacedCode f sep stop gap (b :: rest))) = _
    rw [ih b, ← List.append_assoc]
    rfl

/-- A list with gaps splits as one without them does. -/
theorem splitsAt_spacedCode {sep stop : γ} {gap : List γ} (hne : sep ≠ stop)
    (hE : ∀ s, E (sep :: s) ∧ E (stop :: s)) (hstop : Avoids f stop)
    (hgap : gap.head? ≠ some stop) {as : List α} (h : ∀ a ∈ as, SplitsAt f E a) :
    SplitsAt (spacedCode f sep stop gap) Anything as := by
  have hfirst : ∀ b (bs : List α) (s t : List γ),
      spacedCode f sep stop gap (b :: bs) ++ s ≠ stop :: t := by
    intro b bs s t heq
    have hhead : ∃ u, spacedCode f sep stop gap (b :: bs) ++ s = f b ++ u := by
      cases bs with
      | nil => exact ⟨_, List.append_assoc ..⟩
      | cons c bs => exact ⟨_, List.append_assoc ..⟩
    obtain ⟨u, hu⟩ := hhead
    exact hstop b u (by rw [← hu, heq]; rfl)
  cases as with
  | nil =>
    rintro (_ | ⟨b, bs⟩) s t - - heq
    · exact ⟨rfl, (List.cons.inj heq).2⟩
    · exact absurd heq.symm (hfirst b bs t s)
  | cons a as =>
    rintro (_ | ⟨b, bs⟩) s t - - heq
    · exact absurd heq (hfirst a as s t)
    · -- The lists are told apart behind one more gap.
      have hgapped : ∀ c ∈ a :: as, SplitsAt (fun a => gap ++ f a) E c := by
        intro c hc d s t hs ht heq
        simp only [List.append_assoc] at heq
        exact h c hc d s t hs ht (List.append_cancel_left heq)
      have havoids : Avoids (fun a => gap ++ f a) stop := by
        intro a s hhead
        cases gap with
        | nil => exact hstop a s hhead
        | cons c gap => exact hgap hhead
      refine splitsAt_listCode hne hE havoids hgapped (b :: bs) s t trivial trivial ?_
      rw [← gap_spacedCode, ← gap_spacedCode, List.append_assoc, List.append_assoc, heq]

/-! ## Pieces that each end with a stop -/

def piecesCode (stop : γ) (pieces : List (List γ)) : List γ := pieces.flatMap (· ++ [stop])

/-- Two texts that begin with elements of a kind, up to the first one of another kind, begin
with the same elements. -/
theorem append_inj_of_kind {kind : γ → Prop} {p q s t : List γ} (hp : ∀ c ∈ p, kind c)
    (hq : ∀ c ∈ q, kind c) (hs : ∀ c, s.head? = some c → ¬ kind c)
    (ht : ∀ c, t.head? = some c → ¬ kind c) (h : p ++ s = q ++ t) : p = q ∧ s = t := by
  induction p generalizing q with
  | nil =>
    rcases q with _ | ⟨c, q⟩
    · exact ⟨rfl, h⟩
    · have hc : s = c :: (q ++ t) := h
      rw [hc] at hs
      exact absurd (hq c (List.mem_cons_self ..)) (hs c rfl)
  | cons c p ih =>
    rcases q with _ | ⟨d, q⟩
    · have hc : c :: (p ++ s) = t := h
      rw [← hc] at ht
      exact absurd (hp c (List.mem_cons_self ..)) (ht c rfl)
    · obtain ⟨rfl, hrest⟩ := List.cons.inj h
      obtain ⟨rfl, hst⟩ := ih (fun e he => hp e (List.mem_cons_of_mem _ he))
        (fun e he => hq e (List.mem_cons_of_mem _ he)) hrest
      exact ⟨rfl, hst⟩

/-- Texts without the stop that go up to their first stop are one text. -/
theorem append_stop_inj {stop : γ} {p q s t : List γ} (hp : stop ∉ p) (hq : stop ∉ q)
    (h : p ++ stop :: s = q ++ stop :: t) : p = q ∧ s = t := by
  have hhead (r : List γ) : ∀ c, (stop :: r).head? = some c → ¬ c ≠ stop := by
    rintro c ⟨⟩ hne
    exact hne rfl
  obtain ⟨rfl, hst⟩ := append_inj_of_kind (fun c hc => ne_of_mem_of_not_mem hc hp)
    (fun c hc => ne_of_mem_of_not_mem hc hq) (hhead s) (hhead t) h
  exact ⟨rfl, (List.cons.inj hst).2⟩

/-- Pieces without the stop are read off their code. -/
theorem piecesCode_inj {stop : γ} {ps qs : List (List γ)} (hps : ∀ p ∈ ps, stop ∉ p)
    (hqs : ∀ q ∈ qs, stop ∉ q) (h : piecesCode stop ps = piecesCode stop qs) : ps = qs := by
  induction ps generalizing qs with
  | nil =>
    rcases qs with _ | ⟨q, qs⟩
    · rfl
    · simp [piecesCode] at h
  | cons p ps ih =>
    rcases qs with _ | ⟨q, qs⟩
    · simp [piecesCode] at h
    · have hrow : p ++ stop :: piecesCode stop ps = q ++ stop :: piecesCode stop qs := by
        simpa [piecesCode] using h
      obtain ⟨rfl, hrest⟩ := append_stop_inj (hps p (by simp)) (hqs q (by simp)) hrow
      rw [ih (fun p hp => hps p (List.mem_cons_of_mem _ hp))
        (fun q hq => hqs q (List.mem_cons_of_mem _ hq)) hrest]

/-- The pieces of a text between its stops. -/
def splitAtStops [DecidableEq γ] (stop : γ) : List γ → List (List γ)
  | [] => [[]]
  | c :: rest =>
    if c = stop then [] :: splitAtStops stop rest
    else
      match splitAtStops stop rest with
      | first :: more => (c :: first) :: more
      | [] => [[c]]

theorem piecesCode_splitAtStops [DecidableEq γ] (stop : γ) (l : List γ) :
    piecesCode stop (splitAtStops stop l) = l ++ [stop] := by
  induction l with
  | nil => rfl
  | cons c rest ih =>
    unfold splitAtStops
    split
    · rename_i heq
      subst heq
      show [] ++ [c] ++ piecesCode c (splitAtStops c rest) = _
      rw [ih]
      rfl
    · rcases hsplit : splitAtStops stop rest with _ | ⟨first, more⟩
      · rw [hsplit] at ih
        simp [piecesCode] at ih
      · rw [hsplit] at ih
        show c :: first ++ [stop] ++ piecesCode stop more = _
        rw [List.cons_append, List.cons_append, List.cons_append, ← ih]
        rfl

theorem stop_not_mem_splitAtStops [DecidableEq γ] (stop : γ) (l : List γ) :
    ∀ p ∈ splitAtStops stop l, stop ∉ p := by
  induction l with
  | nil => simp [splitAtStops]
  | cons c rest ih =>
    unfold splitAtStops
    split
    · intro p hp
      rcases List.mem_cons.mp hp with rfl | hp
      · exact List.not_mem_nil
      · exact ih p hp
    · rename_i hne
      rcases hsplit : splitAtStops stop rest with _ | ⟨first, more⟩
      · intro p hp
        rw [List.mem_singleton.mp hp]
        simpa using fun h => hne h.symm
      · rw [hsplit] at ih
        intro p hp
        rcases List.mem_cons.mp hp with rfl | hp
        · intro hmem
          rcases List.mem_cons.mp hmem with rfl | hmem
          · exact hne rfl
          · exact ih first (by simp) hmem
        · exact ih p (List.mem_cons_of_mem _ hp)

/-- A text without the stop is one piece. -/
theorem splitAtStops_of_not_mem [DecidableEq γ] {stop : γ} {l : List γ} (h : stop ∉ l) :
    splitAtStops stop l = [l] := by
  refine piecesCode_inj (stop_not_mem_splitAtStops stop l) ?_ ?_
  · intro q hq
    rwa [List.mem_singleton.mp hq]
  · rw [piecesCode_splitAtStops]
    simp [piecesCode]

end codes
