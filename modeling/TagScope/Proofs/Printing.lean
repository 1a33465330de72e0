/-
# Paths read back

A path that can be written as a tag is read back from that tag. Numbers, lists
and paths come back as they were. A text does not always: a character that is
not printable is written by its code point, behind a backslash and a `u`, and
there is no such escape where texts are read. The backslash is taken away and
what follows it is left as the text.

So what a written path reads back as is known in every case (`Path.reread`).
It is the path itself if no text in it has such a character, and not if one
has.

Key definitions: `Path.literals`, `Path.mapLiterals`, `Path.Writable`, `Quoted.Coded`,
`Path.reread`.
Key theorems: `Path.spelling_render`, `Path.parse_render`, `Path.reread_eq_self_iff`,
`Path.parse_render_of_parse_iff`.
-/
import TagScope.Path.Text
import TagScope.Proofs.Complete
import TagScope.Proofs.Rereading

namespace TagScope

/-! ### Literals -/

mutual

/-- The literals of a path, from left to right. -/
def Path.literals : Path → List Value
  | .current => []
  | .segments ss => Segment.literalsAll ss
termination_by structural p => p

/-- The literals of a segment. -/
def Segment.literals : Segment → List Value
  | .bare _ => []
  | .call _ args => Arg.literalsAll args
termination_by structural s => s

/-- The literals of segments. -/
def Segment.literalsAll : List Segment → List Value
  | [] => []
  | s :: ss => Segment.literals s ++ Segment.literalsAll ss
termination_by structural ss => ss

/-- The literals of an argument. -/
def Arg.literals : Arg → List Value
  | .literal v => [v]
  | .path p => Path.literals p
  | .list items => Arg.literalsAll items
termination_by structural a => a

/-- The literals of arguments. -/
def Arg.literalsAll : List Arg → List Value
  | [] => []
  | a :: as => Arg.literals a ++ Arg.literalsAll as
termination_by structural as => as

end

mutual

/-- The path with other literals. -/
def Path.mapLiterals (f : Value → Value) : Path → Path
  | .current => .current
  | .segments ss => .segments (Segment.mapLiteralsAll f ss)
termination_by structural p => p

/-- The segment with other literals. -/
def Segment.mapLiterals (f : Value → Value) : Segment → Segment
  | .bare name => .bare name
  | .call name args => .call name (Arg.mapLiteralsAll f args)
termination_by structural s => s

/-- The segments with other literals. -/
def Segment.mapLiteralsAll (f : Value → Value) : List Segment → List Segment
  | [] => []
  | s :: ss => Segment.mapLiterals f s :: Segment.mapLiteralsAll f ss
termination_by structural ss => ss

/-- The argument with other literals. -/
def Arg.mapLiterals (f : Value → Value) : Arg → Arg
  | .literal v => .literal (f v)
  | .path p => .path (Path.mapLiterals f p)
  | .list items => .list (Arg.mapLiteralsAll f items)
termination_by structural a => a

/-- The arguments with other literals. -/
def Arg.mapLiteralsAll (f : Value → Value) : List Arg → List Arg
  | [] => []
  | a :: as => Arg.mapLiterals f a :: Arg.mapLiteralsAll f as
termination_by structural as => as

end

section

variable (f : Value → Value)

mutual

theorem Path.nesting_mapLiterals : ∀ p : Path, (p.mapLiterals f).nesting = p.nesting
  | .current => rfl
  | .segments ss => Segment.nestingAll_mapLiteralsAll ss

theorem Segment.nesting_mapLiterals : ∀ s : Segment, (s.mapLiterals f).nesting = s.nesting
  | .bare _ => rfl
  | .call _ args => congrArg (· + 1) (Arg.nestingAll_mapLiteralsAll args)

theorem Segment.nestingAll_mapLiteralsAll : ∀ ss : List Segment,
    Segment.nestingAll (Segment.mapLiteralsAll f ss) = Segment.nestingAll ss
  | [] => rfl
  | s :: ss => by
    rw [Segment.mapLiteralsAll, Segment.nestingAll, Segment.nestingAll,
      Segment.nesting_mapLiterals s, Segment.nestingAll_mapLiteralsAll ss]

theorem Arg.nesting_mapLiterals : ∀ a : Arg, (a.mapLiterals f).nesting = a.nesting
  | .literal _ => rfl
  | .path p => Path.nesting_mapLiterals p
  | .list items => congrArg (· + 1) (Arg.nestingAll_mapLiteralsAll items)

theorem Arg.nestingAll_mapLiteralsAll : ∀ as : List Arg,
    Arg.nestingAll (Arg.mapLiteralsAll f as) = Arg.nestingAll as
  | [] => rfl
  | a :: as => by
    rw [Arg.mapLiteralsAll, Arg.nestingAll, Arg.nestingAll, Arg.nesting_mapLiterals a,
      Arg.nestingAll_mapLiteralsAll as]

end

mutual

theorem Path.mapLiterals_eq_self_iff : ∀ p : Path,
    p.mapLiterals f = p ↔ ∀ v ∈ p.literals, f v = v
  | .current => by simp [Path.mapLiterals, Path.literals]
  | .segments ss => by
    rw [Path.mapLiterals, Path.segments.injEq, Path.literals]
    exact Segment.mapLiteralsAll_eq_self_iff ss

theorem Segment.mapLiterals_eq_self_iff : ∀ s : Segment,
    s.mapLiterals f = s ↔ ∀ v ∈ s.literals, f v = v
  | .bare _ => by simp [Segment.mapLiterals, Segment.literals]
  | .call _ args => by
    rw [Segment.mapLiterals, Segment.call.injEq, Segment.literals]
    exact (and_iff_right rfl).trans (Arg.mapLiteralsAll_eq_self_iff args)

theorem Segment.mapLiteralsAll_eq_self_iff : ∀ ss : List Segment,
    Segment.mapLiteralsAll f ss = ss ↔ ∀ v ∈ Segment.literalsAll ss, f v = v
  | [] => by simp [Segment.mapLiteralsAll, Segment.literalsAll]
  | s :: ss => by
    rw [Segment.mapLiteralsAll, List.cons.injEq, Segment.literalsAll, List.forall_mem_append,
      Segment.mapLiterals_eq_self_iff s, Segment.mapLiteralsAll_eq_self_iff ss]

theorem Arg.mapLiterals_eq_self_iff : ∀ a : Arg,
    a.mapLiterals f = a ↔ ∀ v ∈ a.literals, f v = v
  | .literal v => by simp [Arg.mapLiterals, Arg.literals]
  | .path p => by
    rw [Arg.mapLiterals, Arg.path.injEq, Arg.literals]
    exact Path.mapLiterals_eq_self_iff p
  | .list items => by
    rw [Arg.mapLiterals, Arg.list.injEq, Arg.literals]
    exact Arg.mapLiteralsAll_eq_self_iff items

theorem Arg.mapLiteralsAll_eq_self_iff : ∀ as : List Arg,
    Arg.mapLiteralsAll f as = as ↔ ∀ v ∈ Arg.literalsAll as, f v = v
  | [] => by simp [Arg.mapLiteralsAll, Arg.literalsAll]
  | a :: as => by
    rw [Arg.mapLiteralsAll, List.cons.injEq, Arg.literalsAll, List.forall_mem_append,
      Arg.mapLiterals_eq_self_iff a, Arg.mapLiteralsAll_eq_self_iff as]

end

end

/-! ### Paths that can be written -/

/-- Whether a literal can be written in a tag. -/
def Value.Writable : Value → Prop
  | .int _ | .text _ | .float (.finite _ _) => True
  | _ => False

/-- Whether a literal can be read in a tag: it can be written there, or it is
an infinity, which numbers that are too large are read as. -/
def Value.Readable (v : Value) : Prop := v.Writable ∨ ∃ negative, v = .float (.infinity negative)

mutual

/-- Whether a path, apart from its literals, can be written as a tag: there is
a segment, names are names, and the paths among arguments are such that
arguments can be. -/
def Path.Writable : Path → Prop
  | .current => True
  | .segments ss => ss ≠ [] ∧ Segment.WritableAll ss
termination_by structural p => p

/-- Whether a segment can be written. -/
def Segment.Writable : Segment → Prop
  | .bare name => IsName name.toList
  | .call name args => IsName name.toList ∧ Arg.WritableAll args
termination_by structural s => s

/-- Whether segments can be written. -/
def Segment.WritableAll : List Segment → Prop
  | [] => True
  | s :: ss => Segment.Writable s ∧ Segment.WritableAll ss
termination_by structural ss => ss

/-- Whether an argument can be written. -/
def Arg.Writable : Arg → Prop
  | .literal _ => True
  | .path p => p.IsReference ∧ Path.Writable p
  | .list items => Arg.WritableAll items
termination_by structural a => a

/-- Whether arguments can be written. -/
def Arg.WritableAll : List Arg → Prop
  | [] => True
  | a :: as => Arg.Writable a ∧ Arg.WritableAll as
termination_by structural as => as

end

theorem Binary64.ofDecimal_ne_nan (negative : Bool) (digits : Nat) (exponent : Int) :
    ofDecimal negative digits exponent ≠ .nan := by
  have hrank : ∀ rank, ofRank negative rank ≠ .nan := by
    intro rank
    unfold ofRank
    split <;> simp
  unfold ofDecimal
  dsimp only
  split
  · simp [zero]
  split
  · simp
  split
  · simp [zero]
  split
  · exact hrank _
  · exact hrank _

theorem Value.readable_decimal (n : Numeral) : (Value.float n.toBinary64).Readable := by
  have hnan : n.toBinary64 ≠ .nan := Binary64.ofDecimal_ne_nan _ _ _
  cases hx : n.toBinary64 with
  | nan => exact absurd hx hnan
  | infinity negative => exact Or.inr ⟨negative, rfl⟩
  | finite _ _ => exact Or.inl trivial

mutual

/-- What is spelled can be written, but for infinities. -/
theorem Path.Spelling.writable {cs : List Char} {p : Path} (h : Path.Spelling cs p) :
    p.Writable ∧ ∀ v ∈ p.literals, v.Readable := by
  match h with
  | .current => exact ⟨trivial, by simp [Path.literals]⟩
  | .segments hchain =>
    obtain ⟨hne, hw, hl⟩ := Segment.ChainSpelling.writable hchain
    exact ⟨⟨hne, hw⟩, hl⟩

theorem Segment.ChainSpelling.writable {cs : List Char} {ss : List Segment}
    (h : Segment.ChainSpelling cs ss) :
    ss ≠ [] ∧ Segment.WritableAll ss ∧ ∀ v ∈ Segment.literalsAll ss, v.Readable := by
  match h with
  | .last hs =>
    obtain ⟨hw, hl⟩ := Segment.Spelling.writable hs
    exact ⟨by simp, ⟨hw, trivial⟩, by simpa [Segment.literalsAll] using hl⟩
  | .dot hs hrest =>
    obtain ⟨hw, hl⟩ := Segment.Spelling.writable hs
    obtain ⟨-, hws, hls⟩ := Segment.ChainSpelling.writable hrest
    exact ⟨by simp, ⟨hw, hws⟩, List.forall_mem_append.2 ⟨hl, hls⟩⟩

theorem Segment.Spelling.writable {cs : List Char} {s : Segment} (h : Segment.Spelling cs s) :
    s.Writable ∧ ∀ v ∈ s.literals, v.Readable := by
  match h with
  | .bare hn => exact ⟨by simpa [Segment.Writable] using hn, by simp [Segment.literals]⟩
  | .call hn hargs =>
    obtain ⟨hw, hl⟩ := Arg.ListSpelling.writable hargs
    exact ⟨⟨by simpa using hn, hw⟩, hl⟩

theorem Arg.Spelling.writable {cs : List Char} {a : Arg} (h : Arg.Spelling cs a) :
    a.Writable ∧ ∀ v ∈ a.literals, v.Readable := by
  have one : ∀ {v : Value}, v.Readable → (Arg.literal v).Writable ∧
      ∀ w ∈ (Arg.literal v).literals, w.Readable :=
    fun hv => ⟨trivial, fun w hw => (List.mem_singleton.1 hw) ▸ hv⟩
  match h with
  | .text _ _ => exact one (Or.inl trivial)
  | .integer _ _ _ => exact one (Or.inl trivial)
  | @Arg.Spelling.decimal n x hn _ hx =>
    rw [Numeral.ofText?_text hn, Option.some.injEq] at hx
    exact one (hx ▸ Value.readable_decimal n)
  | .list _ hitems => exact Arg.ListSpelling.writable hitems
  | .reference hp href =>
    obtain ⟨hw, hl⟩ := Path.Spelling.writable hp
    exact ⟨⟨href, hw⟩, hl⟩

theorem Arg.ListSpelling.writable {cs : List Char} {as : List Arg} (h : Arg.ListSpelling cs as) :
    Arg.WritableAll as ∧ ∀ v ∈ Arg.literalsAll as, v.Readable := by
  match h with
  | .none _ => exact ⟨trivial, by simp [Arg.literalsAll]⟩
  | .some _ ha hrest =>
    obtain ⟨hw, hl⟩ := Arg.Spelling.writable ha
    obtain ⟨hws, hls⟩ := Arg.RestSpelling.writable hrest
    exact ⟨⟨hw, hws⟩, List.forall_mem_append.2 ⟨hl, hls⟩⟩

theorem Arg.RestSpelling.writable {cs : List Char} {as : List Arg} (h : Arg.RestSpelling cs as) :
    Arg.WritableAll as ∧ ∀ v ∈ Arg.literalsAll as, v.Readable := by
  match h with
  | .last _ => exact ⟨trivial, by simp [Arg.literalsAll]⟩
  | .comma _ _ ha hrest =>
    obtain ⟨hw, hl⟩ := Arg.Spelling.writable ha
    obtain ⟨hws, hls⟩ := Arg.RestSpelling.writable hrest
    exact ⟨⟨hw, hws⟩, List.forall_mem_append.2 ⟨hl, hls⟩⟩

end

/-! ### Texts -/

namespace Quoted

/-- A character that is written by its code point in a text. -/
def Coded (c : Char) : Prop := escape '"' c = byCode c

instance (c : Char) : Decidable (Coded c) := inferInstanceAs (Decidable (_ = _))

/-- What a character of a text is read back as: its code point stays as it is
written, with only the backslash taken away. -/
def reread (c : Char) : List Char := if Coded c then (byCode c).tail else [c]

theorem ne_of_mem_toDigits (n : Nat) {c : Char} (hc : c ∈ Nat.toDigits 16 n) :
    c ≠ '"' ∧ c ≠ '\\' := by
  have hdigit : ∀ k < 16, Nat.digitChar k ≠ '"' ∧ Nat.digitChar k ≠ '\\' := by decide
  induction n using Nat.strongRecOn with
  | ind n ih =>
    rw [Nat.toDigits_eq_if (by decide)] at hc
    split at hc
    · rename_i h
      rw [List.mem_singleton.1 hc]
      exact hdigit n h
    · rename_i h
      rcases List.mem_append.1 hc with hc | hc
      · exact ih (n / 16) (by omega) hc
      · rw [List.mem_singleton.1 hc]
        exact hdigit _ (Nat.mod_lt _ (by decide))

theorem Body.append_plain {mark : Char} {body text : List Char} (h : Body mark body text) :
    ∀ {cs : List Char}, (∀ c ∈ cs, c ≠ mark ∧ c ≠ '\\') → Body mark (cs ++ body) (cs ++ text)
  | [], _ => h
  | c :: cs, hcs => by
    obtain ⟨hm, hb⟩ := hcs c List.mem_cons_self
    exact .plain hm hb (h.append_plain fun d hd => hcs d (List.mem_cons_of_mem _ hd))

theorem Body.byCode {body text : List Char} (h : Body '"' body text) (c : Char) :
    Body '"' (Quoted.byCode c ++ body) ((Quoted.byCode c).tail ++ text) := by
  have hplain : ∀ d ∈ '\x7b' :: Nat.toDigits 16 c.toNat ++ ['\x7d'], d ≠ '"' ∧ d ≠ '\\' := by
    intro d hd
    rcases List.mem_append.1 hd with hd | hd
    · rcases List.mem_cons.1 hd with rfl | hd
      · decide
      · exact ne_of_mem_toDigits _ hd
    · rw [List.mem_singleton.1 hd]
      decide
  have hbody := Body.escaped (h.append_plain hplain) (c := 'u')
  simpa [Quoted.byCode, unescape] using hbody

theorem length_byCode (c : Char) : 5 ≤ (byCode c).length := by
  have := @Nat.length_toDigits_pos 16 c.toNat
  simp only [byCode, List.length_append, List.length_cons, List.length_nil]
  omega

/-- A character that is written otherwise is no code point. -/
theorem reread_of_short {c : Char} (h : (escape '"' c).length < 5) : reread c = [c] := by
  have hc : ¬ Coded c := by
    intro hc
    rw [hc] at h
    exact absurd (length_byCode c) (Nat.not_le.2 h)
  rw [reread, if_neg hc]

/-- How a character is written: by an escape that means it, as itself, or by its
code point. -/
theorem escape_cases (c : Char) : (∃ d, escape '"' c = ['\\', d] ∧ unescape d = c) ∨
    (escape '"' c = [c] ∧ c ≠ '"' ∧ c ≠ '\\') ∨ Coded c := by
  have known : ∀ c ∈ ['\x00', '\t', '\n', '\r', '\\', '"'],
      ∃ d, escape '"' c = ['\\', d] ∧ unescape d = c := by
    intro c hc
    simp only [List.mem_cons, List.not_mem_nil, or_false] at hc
    rcases hc with rfl | rfl | rfl | rfl | rfl | rfl <;> exact ⟨_, rfl, rfl⟩
  by_cases hc : c ∈ ['\x00', '\t', '\n', '\r', '\\', '"']
  · exact Or.inl (known c hc)
  · simp only [List.mem_cons, List.not_mem_nil, or_false, not_or] at hc
    obtain ⟨h0, h1, h2, h3, h4, h5⟩ := hc
    have hescape : escape '"' c = if isPrintable c then [c] else byCode c := by
      simp [escape, h0, h1, h2, h3, h4, h5]
    by_cases hp : isPrintable c = true
    · rw [if_pos hp] at hescape
      exact Or.inr (Or.inl ⟨hescape, h5, h4⟩)
    · rw [if_neg hp] at hescape
      exact Or.inr (Or.inr hescape)

/-- Each character of a text is read back as `reread` says. -/
theorem Body.escape {body text : List Char} (h : Body '"' body text) (c : Char) :
    Body '"' (Quoted.escape '"' c ++ body) (reread c ++ text) := by
  rcases escape_cases c with ⟨d, he, hd⟩ | ⟨he, hm, hb⟩ | hc
  · rw [reread_of_short (by simp [he]), he]
    have hbody := h.escaped (c := d)
    rwa [hd] at hbody
  · rw [reread_of_short (by simp [he]), he]
    exact .plain hm hb h
  · rw [reread, if_pos hc, hc]
    exact h.byCode c

/-- **A text is read back** character by character. -/
theorem body_flatMap_escape : ∀ cs : List Char,
    Body '"' (cs.flatMap (Quoted.escape '"')) (cs.flatMap reread)
  | [] => .nil
  | c :: cs => (body_flatMap_escape cs).escape c

theorem length_le_flatMap_reread : ∀ cs : List Char, cs.length ≤ (cs.flatMap reread).length
  | [] => Nat.le_refl _
  | c :: cs => by
    have hrest := length_le_flatMap_reread cs
    have hone : 1 ≤ (reread c).length := by
      unfold reread
      split
      · rw [List.length_tail]
        have := length_byCode c
        omega
      · exact Nat.le_refl _
    rw [List.flatMap_cons, List.length_append, List.length_cons]
    omega

/-- A text is read back as it was exactly if no character of it is written by
its code point. -/
theorem flatMap_reread_eq_self_iff : ∀ cs : List Char,
    cs.flatMap reread = cs ↔ ∀ c ∈ cs, ¬ Coded c
  | [] => by simp
  | c :: cs => by
    rw [List.flatMap_cons, List.forall_mem_cons, ← flatMap_reread_eq_self_iff cs]
    by_cases hc : Coded c
    · refine iff_of_false (fun heq => ?_) (fun h => h.1 hc)
      have hlength := congrArg List.length heq
      have hrest := length_le_flatMap_reread cs
      have hcode := length_byCode c
      rw [List.length_append, reread, if_pos hc, List.length_tail, List.length_cons] at hlength
      omega
    · rw [reread, if_neg hc, List.singleton_append, List.cons.injEq]
      exact and_congr (iff_of_true rfl hc) Iff.rfl

end Quoted

/-! ### Paths -/

/-- What a literal is read back as. -/
def Value.reread : Value → Value
  | .text s => .text (String.ofList (s.toList.flatMap Quoted.reread))
  | v => v

/-- What a path is read back as. -/
def Path.reread (p : Path) : Path := p.mapLiterals Value.reread

theorem Value.spelling_render {v : Value} (hv : v.Writable) :
    Arg.Spelling v.renderLiteral.toList (.literal v.reread) := by
  match v with
  | .int i =>
    obtain ⟨n, hn, hdec, htext, hvalue⟩ := numeral_intText i
    show Arg.Spelling (intText i).toList (.literal (.int i))
    rw [← htext]
    exact .integer hn hdec hvalue
  | .float (.finite negative rank) =>
    obtain ⟨n, hn, hdec, htext, hvalue⟩ := Binary64.numeral_inspect negative rank
    show Arg.Spelling (Binary64.inspect (.finite negative rank)).toList
      (.literal (.float (.finite negative rank)))
    rw [← htext]
    refine .decimal hn hdec ?_
    rw [Numeral.ofText?_text hn, hvalue]
  | .text s =>
    show Arg.Spelling (quoted s).toList _
    rw [quoted, String.toList_ofList]
    exact .text (by decide) (Quoted.body_flatMap_escape s.toList)

theorem intercalate_cons {α : Type} (sep x : List α) : ∀ xs : List (List α),
    sep.intercalate (x :: xs) = x ++ xs.flatMap (sep ++ ·)
  | [] => by simp
  | y :: ys => by
    rw [List.intercalate_cons_cons, intercalate_cons sep y ys, List.flatMap_cons,
      List.append_assoc, List.append_assoc]

theorem toList_parenthesised (parts : List String) : (parenthesised parts).toList =
    '(' :: [',', ' '].intercalate (parts.map String.toList) ++ [')'] := by
  simp [parenthesised, tagged]

theorem Path.isReference_mapLiterals (f : Value → Value) {p : Path} (h : p.IsReference) :
    (p.mapLiterals f).IsReference := by
  have hcan : ∀ {s : Segment}, s.CanLead → (s.mapLiterals f).CanLead := by
    intro s hs
    cases s <;> exact hs
  match p with
  | .current => trivial
  | .segments [] => exact h
  | .segments (s :: ss) =>
    intro t ht
    rw [Segment.mapLiteralsAll, List.head?_cons, Option.mem_def, Option.some.injEq] at ht
    subst ht
    exact hcan (h s rfl)

mutual

/-- **A path is spelled as it is written**, up to its texts. -/
theorem Path.spelling_render : ∀ p : Path, p.Writable → (∀ v ∈ p.literals, v.Writable) →
    Path.Spelling p.render.toList (p.mapLiterals Value.reread)
  | .current, _, _ => .current
  | .segments ss, hw, hl => by
    have hchain := Segment.chainSpelling_render ss hw.1 hw.2 hl
    rw [Path.render, String.toList_intercalate]
    exact .segments hchain

theorem Segment.chainSpelling_render : ∀ ss : List Segment, ss ≠ [] → Segment.WritableAll ss →
    (∀ v ∈ Segment.literalsAll ss, v.Writable) →
    Segment.ChainSpelling (['.'].intercalate ((Segment.renderAll ss).map String.toList))
      (Segment.mapLiteralsAll Value.reread ss)
  | [], hne, _, _ => absurd rfl hne
  | [s], _, hw, hl => by
    have hs := Segment.spelling_render s hw.1 (List.forall_mem_append.1 hl).1
    rw [Segment.renderAll, Segment.renderAll, List.map_cons, List.map_nil,
      List.intercalate_singleton]
    exact .last hs
  | s :: t :: ts, _, hw, hl => by
    have hs := Segment.spelling_render s hw.1 (List.forall_mem_append.1 hl).1
    have hrest := Segment.chainSpelling_render (t :: ts) (by simp) hw.2
      (List.forall_mem_append.1 hl).2
    have hchain := Segment.ChainSpelling.dot hs hrest
    rw [Segment.renderAll] at hchain
    rw [Segment.renderAll, Segment.renderAll, List.map_cons, List.map_cons,
      List.intercalate_cons_cons, List.append_assoc]
    exact hchain

theorem Segment.spelling_render : ∀ s : Segment, s.Writable → (∀ v ∈ s.literals, v.Writable) →
    Segment.Spelling s.render.toList (s.mapLiterals Value.reread)
  | .bare name, hw, _ => by
    have hs := Segment.Spelling.bare hw
    rwa [String.ofList_toList] at hs
  | .call name args, hw, hl => by
    have hargs := Arg.listSpelling_render args hw.2 hl
    have hs := Segment.Spelling.call hw.1 hargs
    rw [String.ofList_toList] at hs
    rw [Segment.render, String.toList_append, toList_parenthesised, Segment.mapLiterals]
    simpa using hs

theorem Arg.spelling_render : ∀ a : Arg, a.Writable → (∀ v ∈ a.literals, v.Writable) →
    Arg.Spelling a.render.toList (a.mapLiterals Value.reread)
  | .literal v, _, hl => Value.spelling_render (hl v (List.mem_singleton_self v))
  | .path p, hw, hl =>
    .reference (Path.spelling_render p hw.2 hl) (Path.isReference_mapLiterals _ hw.1)
  | .list items, hw, hl => by
    have hitems := Arg.listSpelling_render items hw hl
    have hlist := @Arg.Spelling.list [] _ _ (by simp [Blanks]) hitems
    rw [Arg.render, String.toList_append, String.toList_ofList, toList_parenthesised,
      Arg.mapLiterals]
    simpa using hlist

theorem Arg.listSpelling_render : ∀ as : List Arg, Arg.WritableAll as →
    (∀ v ∈ Arg.literalsAll as, v.Writable) →
    Arg.ListSpelling ([',', ' '].intercalate ((Arg.renderAll as).map String.toList))
      (Arg.mapLiteralsAll Value.reread as)
  | [], _, _ => .none (fun _ hc => absurd hc List.not_mem_nil)
  | a :: as, hw, hl => by
    have ha := Arg.spelling_render a hw.1 (List.forall_mem_append.1 hl).1
    have hrest := Arg.restSpelling_render as hw.2 (List.forall_mem_append.1 hl).2
    rw [Arg.renderAll, List.map_cons, intercalate_cons]
    exact @Arg.ListSpelling.some [] _ _ _ _ (by simp [Separators]) ha hrest

theorem Arg.restSpelling_render : ∀ as : List Arg, Arg.WritableAll as →
    (∀ v ∈ Arg.literalsAll as, v.Writable) →
    Arg.RestSpelling (((Arg.renderAll as).map String.toList).flatMap ([',', ' '] ++ ·))
      (Arg.mapLiteralsAll Value.reread as)
  | [], _, _ => .last (fun _ hc => absurd hc List.not_mem_nil)
  | a :: as, hw, hl => by
    have ha := Arg.spelling_render a hw.1 (List.forall_mem_append.1 hl).1
    have hrest := Arg.restSpelling_render as hw.2 (List.forall_mem_append.1 hl).2
    have hcomma : Separators [',', ' '] := List.all_eq_true.1 (by decide)
    rw [Arg.renderAll, List.map_cons, List.flatMap_cons]
    exact .comma hcomma (by simp) ha hrest

end

namespace Path

/-- **What a written path is read back as.** -/
theorem parse_render {p : Path} (hw : p.Writable) (hl : ∀ v ∈ p.literals, v.Writable)
    (hn : p.nesting ≤ maxNesting) : parse p.render = .ok p.reread := by
  have hspelling := spelling_render p hw hl
  refine parse_of_tagSpelling ⟨[], _, [], by simp, by simp [Blanks], by simp [Blanks], hspelling⟩ ?_
  rwa [reread, nesting_mapLiterals]

theorem reread_eq_self_iff (p : Path) : p.reread = p ↔
    ∀ s, Value.text s ∈ p.literals → ∀ c ∈ s.toList, ¬ Quoted.Coded c := by
  have htext : ∀ s : String, (Value.text s).reread = .text s ↔
      ∀ c ∈ s.toList, ¬ Quoted.Coded c := by
    intro s
    rw [Value.reread, Value.text.injEq, ← Quoted.flatMap_reread_eq_self_iff, ← String.toList_inj,
      String.toList_ofList]
  rw [reread, mapLiterals_eq_self_iff]
  constructor
  · intro h s hs
    exact (htext s).1 (h _ hs)
  · intro h v hv
    match v with
    | .text s => exact (htext s).2 (h s hv)
    | .null | .bool _ | .int _ | .float _ | .list _ _ | .map _ _ | .record _ => rfl

theorem writable_of_parse {tag : String} {p : Path} (h : parse tag = .ok p)
    (hf : ∀ negative, Value.float (.infinity negative) ∉ p.literals) :
    p.Writable ∧ ∀ v ∈ p.literals, v.Writable := by
  obtain ⟨⟨_, core, _, -, -, -, hcore⟩, -⟩ := tagSpelling_of_parse h
  obtain ⟨hw, hl⟩ := hcore.writable
  refine ⟨hw, fun v hv => ?_⟩
  rcases hl v hv with hv' | ⟨negative, rfl⟩
  · exact hv'
  · exact absurd hv (hf negative)

/-- **A path that was read comes back from its tag** exactly if none of its
texts has a character that is written by its code point. Infinities are left
aside: they are written as names are. -/
theorem parse_render_of_parse_iff {tag : String} {p : Path} (h : parse tag = .ok p)
    (hf : ∀ negative, Value.float (.infinity negative) ∉ p.literals) :
    parse p.render = .ok p ↔
      ∀ s, Value.text s ∈ p.literals → ∀ c ∈ s.toList, ¬ Quoted.Coded c := by
  obtain ⟨hw, hl⟩ := writable_of_parse h hf
  rw [parse_render hw hl (tagSpelling_of_parse h).2, Except.ok.injEq]
  exact reread_eq_self_iff p

theorem parse_call_text {c : Char} (hm : c ≠ '"') (hb : c ≠ '\\') :
    parse (String.ofList ['f', '(', '"', c, '"', ')']) =
      .ok (.segments [.call "f" [.literal (.text (String.ofList [c]))]]) := by
  have hname : IsName ['f'] := ⟨by simp, List.all_eq_true.1 (by decide)⟩
  have htext := @Arg.Spelling.text '"' [c] [c] (by decide) (.plain hm hb .nil)
  have hnone : Separators [] := fun _ hc => absurd hc List.not_mem_nil
  have hargs := Arg.ListSpelling.some hnone htext (.last hnone)
  refine parse_of_tagSpelling ⟨[], _, [], ?_, by simp [Blanks], by simp [Blanks],
    .segments (.last (.call hname hargs))⟩ (show max (max 0 0 + 1) 0 ≤ maxNesting by decide)
  rw [String.toList_ofList]
  rfl

theorem parse_render_of_plain_text :
    parse "f(\"a\")" = .ok (.segments [.call "f" [.literal (.text "a")]]) ∧
      parse (Path.segments [.call "f" [.literal (.text "a")]]).render =
        .ok (.segments [.call "f" [.literal (.text "a")]]) := by
  have h := @parse_call_text 'a' (by decide) (by decide)
  refine ⟨h, (parse_render_of_parse_iff h ?_).2 ?_⟩
  · intro negative hmem
    simp [literals, Segment.literalsAll, Segment.literals, Arg.literalsAll, Arg.literals] at hmem
  · intro s hs
    simp only [literals, Segment.literalsAll, Segment.literals, Arg.literalsAll, Arg.literals,
      List.append_nil, List.mem_singleton, Value.text.injEq] at hs
    subst hs
    intro c hc
    rw [show c = 'a' by simpa using hc]
    decide

/-- A mark that attaches to the character before it is not printable. -/
theorem parse_render_of_mark_ne : ∃ p, parse "f(\"\u0301\")" = .ok p ∧
    (∀ negative, Value.float (.infinity negative) ∉ p.literals) ∧ parse p.render ≠ .ok p := by
  have h := @parse_call_text '\u0301' (by decide) (by decide)
  have hf : ∀ negative, Value.float (.infinity negative) ∉
      (Path.segments [.call "f" [.literal (.text (String.ofList ['\u0301']))]]).literals := by
    intro negative hmem
    simp [literals, Segment.literalsAll, Segment.literals, Arg.literalsAll, Arg.literals] at hmem
  refine ⟨_, h, hf, fun hp => ?_⟩
  obtain ⟨hw, hl⟩ := writable_of_parse h hf
  rw [parse_render hw hl (tagSpelling_of_parse h).2, Except.ok.injEq, reread_eq_self_iff] at hp
  exact hp _ (List.mem_singleton_self _) '\u0301' (by simp) (by decide +kernel)

end Path

end TagScope
