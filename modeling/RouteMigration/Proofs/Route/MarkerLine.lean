import Mathlib.Data.List.TakeWhile
import RouteMigration.Proofs.Route.Crossing

set_option autoImplicit false

namespace RouteMigration

namespace Text

def lineOf (text : Text) : Text :=
  text.takeWhile (· != '\n')

theorem lineOf_append_cons (line rest : Text) (level : '\n' ∉ line) :
    lineOf (line ++ '\n' :: rest) = line := by
  have inside : ∀ c ∈ line, (c != '\n') = true := by
    rintro c member
    simpa using ne_of_mem_of_not_mem member level
  rw [lineOf, List.takeWhile_append_of_pos inside]
  simp

theorem lineOf_of_not_mem (line : Text) (level : '\n' ∉ line) : lineOf line = line := by
  rw [lineOf, List.takeWhile_eq_self_iff]
  rintro c member
  simpa using ne_of_mem_of_not_mem member level

def emptyOrComment (code : Text) : Bool :=
  code.isEmpty || "//".toList.isPrefixOf code || "/*".toList.isPrefixOf code

def blankOrComment (line : Text) : Bool :=
  emptyOrComment (line.dropWhile isBlank)

theorem emptyOrComment_cons (c : Char) (other : c ≠ '/') (rest : Text) :
    emptyOrComment (c :: rest) = false := by
  simp [emptyOrComment, List.isPrefixOf, other.symm]

theorem emptyOrComment_slash (rest : Text) :
    emptyOrComment ('/' :: rest) = (rest.head? == some '/' || rest.head? == some '*') := by
  cases rest <;> simp [emptyOrComment, List.isPrefixOf, Bool.beq_comm]

end Text

namespace Route

theorem stripCookieExtraction_cons (c : Char) (other : c ≠ 'c') (rest : Text) :
    stripCookieExtraction (c :: rest) = c :: stripCookieExtraction rest := by
  apply Shape.replaceAll_kept
  intro width measured
  exact other (cookieExtraction.eq_opener 'c' (by rfl) c rest _ measured)

def ReadsFirst (text : Text) : Prop :=
  ∃ statement rest, text = statement ++ rest ∧ cookieExtraction.Spells statement

theorem strip_of_readsFirst (text : Text) (reads : ReadsFirst text) :
    ∃ rest, stripCookieExtraction text = '/' :: '/' :: rest := by
  obtain ⟨statement, rest, rfl, spelled⟩ := reads
  obtain ⟨width, measured⟩ := exists_width?_of_spells .cookieExtraction statement rest spelled
  exact ⟨_, cookieExtraction.replaceAll_measured extractionMarker _ width measured⟩

theorem strip_of_not_readsFirst (c : Char) (rest : Text) (plain : ¬ ReadsFirst (c :: rest)) :
    stripCookieExtraction (c :: rest) = c :: stripCookieExtraction rest := by
  apply Shape.replaceAll_kept
  intro width measured
  exact plain ⟨_, _, (List.take_append_drop _ _).symm, cookieExtraction.spells_take _ _ measured⟩

theorem dropWhile_strip (line : Text) :
    (stripCookieExtraction line).dropWhile isBlank =
      stripCookieExtraction (line.dropWhile isBlank) := by
  induction line with
  | nil => rfl
  | cons c rest ih =>
    by_cases blank : isBlank c = true
    · have other : c ≠ 'c' := by
        rintro rfl
        cases blank
      rw [stripCookieExtraction_cons c other, List.dropWhile_cons_of_pos blank, ih,
        List.dropWhile_cons_of_pos blank]
    · rw [List.dropWhile_cons_of_neg blank]
      by_cases reads : ReadsFirst (c :: rest)
      · obtain ⟨tail, marked⟩ := strip_of_readsFirst _ reads
        rw [marked]
        rfl
      · rw [strip_of_not_readsFirst c rest reads, List.dropWhile_cons_of_neg blank]

theorem emptyOrComment_strip (code : Text) :
    Text.emptyOrComment (stripCookieExtraction code) = true ↔
      Text.emptyOrComment code = true ∨ ReadsFirst code ∨
        ∃ rest, code = '/' :: rest ∧ ReadsFirst rest := by
  by_cases reads : ReadsFirst code
  · obtain ⟨tail, marked⟩ := strip_of_readsFirst code reads
    simp [marked, Text.emptyOrComment_slash, reads]
  cases code with
  | nil => exact ⟨.inl, fun _ => rfl⟩
  | cons c rest =>
    rw [strip_of_not_readsFirst c rest reads]
    by_cases slash : c = '/'
    · subst slash
      rw [Text.emptyOrComment_slash, Text.emptyOrComment_slash]
      by_cases next : ReadsFirst rest
      · -- The slash and the marker make a comment of their own.
        obtain ⟨tail, marked⟩ := strip_of_readsFirst rest next
        simp [marked, next]
      · have head : (stripCookieExtraction rest).head? = rest.head? := by
          cases rest with
          | nil => rfl
          | cons d rest => rw [strip_of_not_readsFirst d rest next]; rfl
        simp [head, reads, next]
    · simp [Text.emptyOrComment_cons c slash, slash, reads]

theorem not_mem_strip (text : Text) (level : '\n' ∉ text) :
    '\n' ∉ stripCookieExtraction text := by
  intro member
  rcases cookieExtraction.mem_of_mem_replaceAll extractionMarker text '\n' member with old | new
  · exact level old
  · exact absurd new (by decide)

theorem lineOf_strip (text : Text) :
    Text.lineOf (stripCookieExtraction text) = stripCookieExtraction (Text.lineOf text) := by
  by_cases level : '\n' ∈ text
  · obtain ⟨line, rest, rfl, first⟩ := List.eq_append_cons_of_mem level
    have whole : stripCookieExtraction (line ++ '\n' :: rest) =
        stripCookieExtraction line ++ '\n' :: stripCookieExtraction rest :=
      cookieExtraction.replaceAll_append_cons '\n' (by decide) extractionMarker line rest
    rw [whole, Text.lineOf_append_cons _ _ (not_mem_strip line first),
      Text.lineOf_append_cons line rest first]
  · rw [Text.lineOf_of_not_mem text level, Text.lineOf_of_not_mem _ (not_mem_strip text level)]

theorem ends_at_semicolon (content : Text) (first later : List Segment) (statement : Text)
    (cut : cookieExtraction.segments content = first ++ .found statement :: later) :
    ∃ opening lead, statement = opening ++ (lead ++ [';']) ∧ extractionOpening.Spells opening ∧
      ∀ c ∈ lead, isBeforeStatementEnd c = true := by
  have measured := cookieExtraction.width?_of_found content first later statement cut
  have whole : (statement ++ later.flatMap Segment.source).take statement.length = statement :=
    List.take_left
  generalize statement ++ later.flatMap Segment.source = text at measured whole
  rw [cookieExtraction_eq, Shape.width?_append, Option.bind_eq_some_iff] at measured
  obtain ⟨width, opened, measured⟩ := measured
  simp only [Shape.width?, Piece.width?, Option.map_some, Nat.add_zero, Option.bind_fun_some,
    Option.map_eq_some_iff, Option.ite_none_right_eq_some, Option.some.injEq] at measured
  obtain ⟨_, ⟨closed, rfl⟩, size⟩ := measured
  refine ⟨text.take width, (text.drop width).takeWhile isBeforeStatementEnd, ?_,
    extractionOpening.spells_take text width opened, List.all_eq_true.mp List.all_takeWhile⟩
  rw [← take_statementEnd (text.drop width) closed, ← List.take_add, size, whole]

theorem marker_line (content : Text) (first later : List Segment) (statement : Text)
    (cut : cookieExtraction.segments content = first ++ .found statement :: later) :
    ∃ rest,
      content = first.flatMap Segment.source ++ (statement ++ rest) ∧
      stripCookieExtraction content = first.flatMap (Segment.rewritten extractionMarker) ++
        (extractionMarker ++ stripCookieExtraction rest) ∧
      (∃ opening lead, statement = opening ++ (lead ++ [';']) ∧
        extractionOpening.Spells opening ∧ ∀ c ∈ lead, isBeforeStatementEnd c = true) ∧
      Text.lineOf (stripCookieExtraction rest) = stripCookieExtraction (Text.lineOf rest) ∧
      (Text.blankOrComment (Text.lineOf (stripCookieExtraction rest)) = true ↔
        Text.blankOrComment (Text.lineOf rest) = true ∨
          ReadsFirst ((Text.lineOf rest).dropWhile isBlank) ∨
          ∃ code, (Text.lineOf rest).dropWhile isBlank = '/' :: code ∧ ReadsFirst code) := by
  have onward := cookieExtraction.segments_suffix content (first ++ [.found statement]) later
    (by simpa using cut)
  refine ⟨later.flatMap Segment.source, ?_, ?_, ends_at_semicolon content first later statement cut,
    lineOf_strip _, ?_⟩
  · rw [← cookieExtraction.source_segments content, cut]
    simp [Segment.source]
  · rw [stripCookieExtraction, stripCookieExtraction, Shape.replaceAll, Shape.replaceAll, cut,
      onward]
    simp [Segment.rewritten]
  · rw [lineOf_strip, Text.blankOrComment, dropWhile_strip, emptyOrComment_strip]
    rfl

def forwardedRead : Text :=
  "const cookieHeader = request.headers.get('cookie'); // forward".toList

theorem marker_line_forwardedRead : ∃ later,
    cookieExtraction.segments forwardedRead =
      [] ++ .found "const cookieHeader = request.headers.get('cookie');".toList :: later ∧
    ∃ rest, stripCookieExtraction forwardedRead = extractionMarker ++ stripCookieExtraction rest ∧
      rest = " // forward".toList ∧
      Text.blankOrComment (Text.lineOf (stripCookieExtraction rest)) = true := by
  have cut : cookieExtraction.segments forwardedRead =
      [] ++ .found "const cookieHeader = request.headers.get('cookie');".toList ::
        " // forward".toList.map .kept := by decide +kernel
  obtain ⟨rest, source, result, -, -, comment⟩ := marker_line forwardedRead [] _ _ cut
  have same : rest = " // forward".toList := by
    have split : forwardedRead =
        "const cookieHeader = request.headers.get('cookie');".toList ++ " // forward".toList := by
      decide +kernel
    exact (List.append_cancel_left (split.symm.trans source)).symm
  refine ⟨_, cut, rest, result, same, comment.mpr (.inl ?_)⟩
  rw [same]
  decide +kernel

theorem code_in_marker_line :
    (stripCookieExtraction "const cookieHeader = request.headers.get('cookie'); f();".toList =
        extractionMarker ++ " f();".toList ∧
      Text.blankOrComment (Text.lineOf " f();".toList) = false) ∧
    stripCookieExtraction "const cookieHeader = request.headers.get('cookie') || ';';".toList =
        extractionMarker ++ "';".toList ∧
      Text.blankOrComment (Text.lineOf "';".toList) = false := by
  decide +kernel

end Route

end RouteMigration
