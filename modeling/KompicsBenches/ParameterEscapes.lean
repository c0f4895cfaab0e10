import KompicsBenches.Replacement

namespace KompicsBenches.ParameterEscapes
open Replacement

-- A text is the list of its characters.
abbrev Text := List Char

-- What `\R` matches of a single character.
def lineSeparator (c : Char) : Bool :=
  c ∈ ['\n','\x0b','\x0c','\r','\u0085','\u2028','\u2029']

-- `\R`, which takes a carriage return together with the line feed behind it.
def lineBreak : Text → Option ℕ
  | '\r' :: '\n' :: _ => some 2
  | c :: _ => if lineSeparator c then some 1 else none
  | [] => none

def commaMarker : Text := ['!','C','!']
def lineMarker : Text := ['!','N','!']

-- Of the parameters only their text: the printing and parsing are those of the library.
def toCSV (s : Text) : Text :=
  replaceAll (literal ['"']) ['"','"'] (replaceAll lineBreak lineMarker (replaceAll (literal [',']) commaMarker s))

def unescapeCSV (s : Text) : Text :=
  replaceAll (literal commaMarker) [','] (replaceAll (literal lineMarker) ['\n'] (replaceAll (literal ['"','"']) ['"'] s))

structure Reversible (s : Text) : Prop where
  restored : unescapeCSV (toCSV s) = s
  commas : ',' ∉ toCSV s
  lines : ∀ c ∈ toCSV s, lineSeparator c = false

-- What looks like a marker once its neighbours are replaced.
def ambiguous : List Text :=
  [['!','N','!'],['!','N',','],['!','N','\n'],[',','N','!'],[',','N',','],[',','N','\n'],['!','C','!'],['!','C',',']]

def mark (c : Char) : Text := if c = ',' then commaMarker else if c = '\n' then lineMarker else [c]

def marked (s : Text) : Text := s.flatMap mark

section Escaping
variable {s : Text}

theorem lineBreak_single {c : Char} (other : c ≠ '\r') (rest : Text) :
    lineBreak (c :: rest) = if lineSeparator c then some 1 else none := by
  unfold lineBreak
  split
  · rename_i same
    cases (List.cons.inj same).1
    exact absurd rfl other
  · rename_i same
    cases same
    rfl
  · rename_i same
    cases same

theorem toCSV_marked (lines : ∀ c ∈ s, lineSeparator c = true → c = '\n') :
    toCSV s = (marked s).flatMap fun c => if c = '"' then ['"','"'] else [c] := by
  have commas : replaceAll (literal [',']) commaMarker s =
      s.flatMap fun c => if decide (c = ',') then commaMarker else [c] :=
    replaceAll_single fun c _ rest => literal_single ',' c rest
  have single : ∀ c ∈ s.flatMap fun c => if decide (c = ',') then commaMarker else [c], ∀ rest,
      lineBreak (c :: rest) = if lineSeparator c then some 1 else none := by
    intro c member rest
    apply lineBreak_single
    rintro rfl
    obtain ⟨d,inside,found⟩ := List.mem_flatMap.mp member
    split at found
    · revert found
      decide
    · rw [List.mem_singleton] at found
      cases lines d inside (found ▸ rfl)
      cases found
  rw [toCSV,commas,replaceAll_single single,List.flatMap_assoc,
    replaceAll_single fun c _ rest => literal_single '"' c rest]
  have marks : (s.flatMap fun c => (if decide (c = ',') then commaMarker else [c]).flatMap
      fun c => if lineSeparator c then lineMarker else [c]) = marked s := by
    apply List.flatMap_congr
    intro c inside
    by_cases comma : c = ','
    · subst comma
      decide
    · by_cases line : c = '\n'
      · subst line
        decide
      · have plain : lineSeparator c = false := by
          by_contra separator
          exact line (lines c inside (by simpa using separator))
        simp [mark,comma,line,plain]
  rw [marks]
  simp only [decide_eq_true_eq]

theorem mark_plain {c d : Char} (inside : d ∈ mark c) : d = c ∧ c ≠ ',' ∧ c ≠ '\n' ∨ d = '!' ∨ d = 'C' ∨ d = 'N' := by
  unfold mark at inside
  split at inside
  · rcases List.mem_cons.mp inside with rfl | inside
    · exact .inr (.inl rfl)
    · rcases List.mem_cons.mp inside with rfl | inside
      · exact .inr (.inr (.inl rfl))
      · exact .inr (.inl (List.mem_singleton.mp inside))
  · split at inside
    · rcases List.mem_cons.mp inside with rfl | inside
      · exact .inr (.inl rfl)
      · rcases List.mem_cons.mp inside with rfl | inside
        · exact .inr (.inr (.inr rfl))
        · exact .inr (.inl (List.mem_singleton.mp inside))
    · rename_i comma line
      exact .inl ⟨List.mem_singleton.mp inside,comma,line⟩

-- Neither a comma nor a line break is left, whatever the text.
theorem toCSV_field (lines : ∀ c ∈ s, lineSeparator c = true → c = '\n') :
    ',' ∉ toCSV s ∧ ∀ c ∈ toCSV s, lineSeparator c = false := by
  have plain : ∀ c ∈ toCSV s, c ≠ ',' ∧ lineSeparator c = false := by
    intro c inside
    rw [toCSV_marked lines] at inside
    obtain ⟨d,markedChar,inside⟩ := List.mem_flatMap.mp inside
    have same : c = d := by
      split at inside
      · rename_i quote
        rw [quote]
        simpa using inside
      · exact List.mem_singleton.mp inside
    subst same
    obtain ⟨e,original,from_⟩ := List.mem_flatMap.mp markedChar
    rcases mark_plain from_ with ⟨rfl,comma,line⟩ | rfl | rfl | rfl
    · refine ⟨comma,?_⟩
      by_contra separator
      exact line (lines c original (by simpa using separator))
    all_goals decide
  exact ⟨fun inside => (plain _ inside).1 rfl,fun c inside => (plain c inside).2⟩

def lines (s : Text) : Text := replaceAll (literal lineMarker) ['\n'] s
def commas (s : Text) : Text := replaceAll (literal commaMarker) [','] s

def restore (s : Text) : Text := commas (lines (marked s))

theorem restore_toCSV (separators : ∀ c ∈ s, lineSeparator c = true → c = '\n') :
    unescapeCSV (toCSV s) = restore s := by
  rw [unescapeCSV,toCSV_marked separators,replaceAll_halve]
  rfl

end Escaping

section Restoring
variable {s t : Text} {c : Char}

theorem lines_other (other : c ≠ '!') : lines (c :: t) = c :: lines t := by
  apply replaceAll_other
  intro marker
  exact other (List.cons_prefix_cons.mp marker).1.symm

theorem lines_bang (other : ¬['N','!'] <+: t) : lines ('!' :: t) = '!' :: lines t := by
  apply replaceAll_other
  intro marker
  exact other (List.cons_prefix_cons.mp marker).2

theorem lines_marker (t : Text) : lines ('!' :: 'N' :: '!' :: t) = '\n' :: lines t :=
  replaceAll_text (List.cons_ne_nil '!' ['N','!'])

theorem commas_other (other : c ≠ '!') : commas (c :: t) = c :: commas t := by
  apply replaceAll_other
  intro marker
  exact other (List.cons_prefix_cons.mp marker).1.symm

theorem commas_bang (other : ¬['C','!'] <+: t) : commas ('!' :: t) = '!' :: commas t := by
  apply replaceAll_other
  intro marker
  exact other (List.cons_prefix_cons.mp marker).2

theorem commas_marker (t : Text) : commas ('!' :: 'C' :: '!' :: t) = ',' :: commas t :=
  replaceAll_text (List.cons_ne_nil '!' ['C','!'])

theorem marked_plain (bang : c ≠ ',') (line : c ≠ '\n') (s : Text) : marked (c :: s) = c :: marked s := by
  rw [marked,List.flatMap_cons,mark,if_neg bang,if_neg line]
  rfl

-- What ends a marker that the `!` or comma before it began.
def Opens (s : Text) : Prop := ∃ c rest, s = 'N' :: c :: rest ∧ (c = '!' ∨ c = ',' ∨ c = '\n')
def Closes (s : Text) : Prop := ∃ c rest, s = 'C' :: c :: rest ∧ (c = '!' ∨ c = ',')

theorem starts_iff : (∃ text ∈ ambiguous, text <+: c :: s) ↔
    (c = '!' ∨ c = ',') ∧ Opens s ∨ c = '!' ∧ Closes s := by
  rcases s with _ | ⟨a,_ | ⟨b,s⟩⟩
  · simp [ambiguous,Opens,Closes]
  · simp [ambiguous,Opens,Closes]
  · simp [ambiguous,Opens,Closes]
    grind

theorem marked_comma (s : Text) : marked (',' :: s) = '!' :: 'C' :: '!' :: marked s := rfl
theorem marked_line (s : Text) : marked ('\n' :: s) = '!' :: 'N' :: '!' :: marked s := rfl

theorem bang_first {d : Char} {t : Text} : ['!'] <+: d :: t ↔ d = '!' := by
  simp [List.cons_prefix_cons,eq_comm]

theorem marked_bang (s : Text) :
    ['!'] <+: marked s ↔ ∃ c rest, s = c :: rest ∧ (c = '!' ∨ c = ',' ∨ c = '\n') := by
  cases s with
  | nil => simp [marked]
  | cons c s =>
    by_cases comma : c = ','
    · subst comma
      simp [marked_comma]
    · by_cases line : c = '\n'
      · subst line
        simp [marked_line]
      · rw [marked_plain comma line,bang_first]
        simp [comma,line]

theorem marked_opens (s : Text) : ['N','!'] <+: marked s ↔ Opens s := by
  cases s with
  | nil => simp [marked,Opens]
  | cons c s =>
    by_cases comma : c = ','
    · subst comma
      simp [marked_comma,Opens]
    · by_cases line : c = '\n'
      · subst line
        simp [marked_line,Opens]
      · rw [marked_plain comma line,List.cons_prefix_cons,marked_bang]
        constructor
        · rintro ⟨rfl,d,rest,rfl,opens⟩
          exact ⟨d,rest,rfl,opens⟩
        · rintro ⟨d,rest,same,opens⟩
          obtain ⟨rfl,rfl⟩ := List.cons.inj same
          exact ⟨rfl,d,rest,rfl,opens⟩

section Lines

theorem lines_line (s : Text) : lines (marked ('\n' :: s)) = '\n' :: lines (marked s) := lines_marker _

theorem lines_plain (bang : c ≠ '!') (comma : c ≠ ',') (line : c ≠ '\n') (s : Text) :
    lines (marked (c :: s)) = c :: lines (marked s) := by
  rw [marked_plain comma line,lines_other bang]

theorem lines_bang_closed (closed : ¬Opens s) : lines (marked ('!' :: s)) = '!' :: lines (marked s) := by
  rw [marked_plain (by decide) (by decide),lines_bang (by rwa [marked_opens])]

theorem lines_bang_open (opens : Opens s) : ∃ t, lines (marked ('!' :: s)) = '\n' :: t := by
  obtain ⟨t,whole⟩ := (marked_opens s).mpr opens
  rw [marked_plain (by decide) (by decide),← whole]
  exact ⟨_,lines_marker t⟩

theorem lines_comma_closed (closed : ¬Opens s) :
    lines (marked (',' :: s)) = '!' :: 'C' :: '!' :: lines (marked s) := by
  rw [marked_comma,lines_bang (by simp),lines_other (by decide),lines_bang (by rwa [marked_opens])]

theorem lines_comma_open (opens : Opens s) : ∃ t, lines (marked (',' :: s)) = '!' :: 'C' :: '\n' :: t := by
  obtain ⟨t,whole⟩ := (marked_opens s).mpr opens
  rw [marked_comma,lines_bang (by simp),lines_other (by decide),← whole]
  exact ⟨lines t,congrArg _ (congrArg _ (lines_marker t))⟩

-- The first character after the line markers are read, by that of the text.
theorem lines_first (c : Char) (s : Text) : ∃ d t, lines (marked (c :: s)) = d :: t ∧
    (d = '!' ↔ c = '!' ∧ ¬Opens s ∨ c = ',') ∧ (d = 'C' → c = 'C') := by
  by_cases comma : c = ','
  · subst comma
    by_cases opens : Opens s
    · obtain ⟨t,begins⟩ := lines_comma_open opens
      exact ⟨_,_,begins,by simp,by decide⟩
    · exact ⟨_,_,lines_comma_closed opens,by simp,by decide⟩
  · by_cases bang : c = '!'
    · subst bang
      by_cases opens : Opens s
      · obtain ⟨t,begins⟩ := lines_bang_open opens
        exact ⟨_,_,begins,by simp [opens],by decide⟩
      · exact ⟨_,_,lines_bang_closed opens,by simp [opens],by decide⟩
    · by_cases line : c = '\n'
      · subst line
        exact ⟨_,_,lines_line s,by simp,by decide⟩
      · exact ⟨_,_,lines_plain bang comma line s,by simp [bang,comma],id⟩

theorem lines_bang_iff (s : Text) : ['!'] <+: lines (marked s) ↔
    ∃ c rest, s = c :: rest ∧ (c = '!' ∧ ¬Opens rest ∨ c = ',') := by
  cases s with
  | nil => simp [lines,marked]
  | cons c s =>
    obtain ⟨d,t,begins,bang,_⟩ := lines_first c s
    rw [begins,bang_first,bang]
    simp

-- A marker of a comma is read where none was written.
theorem lines_closes (s : Text) : ['C','!'] <+: lines (marked s) ↔
    ∃ c rest, s = 'C' :: c :: rest ∧ (c = '!' ∧ ¬Opens rest ∨ c = ',') := by
  constructor
  · intro closes
    cases s with
    | nil => simp [lines,marked] at closes
    | cons c s =>
      obtain ⟨d,t,begins,_,letter⟩ := lines_first c s
      have same := closes
      rw [begins,List.cons_prefix_cons] at same
      have letter := letter same.1.symm
      subst letter
      rw [lines_plain (by decide) (by decide) (by decide),List.cons_prefix_cons,lines_bang_iff] at closes
      obtain ⟨_,c,rest,rfl,bang⟩ := closes
      exact ⟨c,rest,rfl,bang⟩
  · rintro ⟨c,rest,rfl,bang⟩
    rw [lines_plain (by decide) (by decide) (by decide),List.cons_prefix_cons,lines_bang_iff]
    exact ⟨rfl,c,rest,rfl,bang⟩

end Lines

theorem restore_line (s : Text) : restore ('\n' :: s) = '\n' :: restore s := by
  rw [restore,lines_line,commas_other (by decide)]
  rfl

theorem restore_plain (bang : c ≠ '!') (comma : c ≠ ',') (line : c ≠ '\n') (s : Text) :
    restore (c :: s) = c :: restore s := by
  rw [restore,lines_plain bang comma line,commas_other bang]
  rfl

theorem restore_comma (closed : ¬Opens s) : restore (',' :: s) = ',' :: restore s := by
  rw [restore,lines_comma_closed closed,commas_marker]
  rfl

theorem restore_comma_open (opens : Opens s) : restore (',' :: s) ≠ ',' :: s := by
  obtain ⟨t,begins⟩ := lines_comma_open opens
  rw [restore,begins,commas_bang (by simp)]
  simp

theorem restore_bang_open (opens : Opens s) : restore ('!' :: s) ≠ '!' :: s := by
  obtain ⟨t,begins⟩ := lines_bang_open opens
  rw [restore,begins,commas_other (by decide)]
  simp

theorem restore_bang (closed : ¬Opens s) (apart : ¬['C','!'] <+: lines (marked s)) :
    restore ('!' :: s) = '!' :: restore s := by
  rw [restore,lines_bang_closed closed,commas_bang apart]
  rfl

theorem restore_bang_closes (closed : ¬Opens s) (closes : ['C','!'] <+: lines (marked s)) :
    restore ('!' :: s) ≠ '!' :: s := by
  obtain ⟨t,whole⟩ := closes
  rw [restore,lines_bang_closed closed,← whole]
  show commas ('!' :: 'C' :: '!' :: t) ≠ _
  rw [commas_marker]
  simp

def Ambiguous (s : Text) : Prop := ∃ text ∈ ambiguous, text <:+: s

theorem ambiguous_cons (c : Char) (s : Text) : Ambiguous (c :: s) ↔
    ((c = '!' ∨ c = ',') ∧ Opens s ∨ c = '!' ∧ Closes s) ∨ Ambiguous s := by
  rw [← starts_iff]
  simp only [Ambiguous,List.infix_cons_iff,and_or_left,exists_or]

-- Where the comma marker is not read because a line marker is read from its last `!` on,
-- the text is ambiguous further back.
theorem restore_bang_iff (ih : restore s = s ↔ ¬Ambiguous s) :
    restore ('!' :: s) = '!' :: s ↔ ¬Ambiguous ('!' :: s) := by
  rw [ambiguous_cons]
  by_cases opens : Opens s
  · simp [restore_bang_open opens,opens]
  · by_cases closes : ['C','!'] <+: lines (marked s)
    · have wrong := restore_bang_closes opens closes
      obtain ⟨c,rest,rfl,begins⟩ := (lines_closes s).mp closes
      have late : Closes ('C' :: c :: rest) := ⟨c,rest,rfl,begins.imp And.left id⟩
      simp [wrong,late]
    · have later : Closes s → Ambiguous s := by
        rintro ⟨c,rest,rfl,begins⟩
        have behind : c = '!' ∧ Opens rest := by
          have apart := mt (lines_closes _).mpr closes
          by_contra neither
          apply apart
          refine ⟨c,rest,rfl,?_⟩
          rcases begins with rfl | rfl
          · exact .inl ⟨rfl,fun further => neither ⟨rfl,further⟩⟩
          · exact .inr rfl
        obtain ⟨rfl,further⟩ := behind
        rw [ambiguous_cons,ambiguous_cons]
        exact .inr (.inl (.inl ⟨.inl rfl,further⟩))
      rw [restore_bang opens closes,List.cons_inj_right,ih]
      have merged : Closes s ∨ Ambiguous s ↔ Ambiguous s := or_iff_right_of_imp later
      simp [opens,merged]

-- One character after the other: it comes back unless a marker is read that begins with it.
theorem restore_iff (s : Text) : restore s = s ↔ ¬Ambiguous s := by
  induction s with
  | nil => simp [Ambiguous,ambiguous,restore,marked,lines,commas]
  | cons c s ih =>
    by_cases bang : c = '!'
    · subst bang
      exact restore_bang_iff ih
    · rw [ambiguous_cons]
      by_cases line : c = '\n'
      · subst line
        rw [restore_line,List.cons_inj_right,ih]
        simp
      · by_cases comma : c = ','
        · subst comma
          by_cases opens : Opens s
          · simp [restore_comma_open opens,opens]
          · rw [restore_comma opens,List.cons_inj_right,ih]
            simp [opens]
        · rw [restore_plain bang comma line,List.cons_inj_right,ih]
          simp [bang,comma]

end Restoring

-- A field of a text that has a marker in it, or what becomes one, is read back as another text.
theorem csv_reversible_iff {s : Text} (separators : ∀ c ∈ s, lineSeparator c = true → c = '\n') :
    Reversible s ↔ ¬∃ text ∈ ambiguous, text <:+: s := by
  obtain ⟨commas,lines⟩ := toCSV_field separators
  refine Iff.trans ?_ (restore_iff s)
  rw [← restore_toCSV separators]
  exact ⟨Reversible.restored,fun restored => ⟨restored,commas,lines⟩⟩

theorem csv_reversible_iff_list : Reversible ['a',',','\n','"','!'] :=
  (csv_reversible_iff (by simp [lineSeparator])).mpr (by decide)

-- The marker of a comma in the text itself comes back as a comma.
theorem csv_marker_lost : unescapeCSV (toCSV ['!','C','!']) = [','] ∧ ¬Reversible ['!','C','!'] := by
  have lost : unescapeCSV (toCSV ['!','C','!']) = [','] := by decide
  refine ⟨lost,?_⟩
  intro same
  cases lost.symm.trans same.restored

end KompicsBenches.ParameterEscapes
