import AdaptivePi.Report.PropertyTable

namespace AdaptivePi.Report

open Foundation Foundation.Pattern Foundation.PythonText

variable {unicode : Unicode}

section Table

variable (unicode) in
def TableRow.GivesIn (row : TableRow) (file function : Text) (property : Property) : Prop :=
  location row.print = none ∧ ∃ result, resultRow unicode row.print = some result ∧
    result.property unicode file function = some property

variable (unicode) in
def Gives (entry : TableGroup × TableRow) (property : Property) : Prop :=
  ∃ file function, location entry.1.header = some (file, function) ∧
    entry.2.GivesIn unicode file function property

def tableRows (table : List TableGroup) : List (TableGroup × TableRow) :=
  table.flatMap fun group => group.rows.map (group, ·)

theorem newline_not_mem_header (group : TableGroup) : '\n' ∉ group.header := by
  unfold TableGroup.header
  simp only [List.mem_append, not_or]
  exact ⟨group.file.2.2, by decide, group.function.2.2⟩

private theorem isSome_location_header (group : TableGroup) :
    (location group.header).isSome = true :=
  (isSome_location (newline_not_mem_header group)).mpr
    ⟨_, _, rfl, group.file.2.1, group.function.2.1⟩

/-- No row gives more than one property, and if all give one, each is read. -/
private theorem of_foldlM_rows {rows : List TableRow} {loop loop' : PropertyLoop} {file : Text}
    (hfile : loop.filename = some file)
    (h : (rows.map TableRow.print).foldlM (parseLine unicode) loop = some loop') :
    ∃ new, loop'.properties = loop.properties ++ new ∧ new.length ≤ rows.length ∧
      (new.length = rows.length →
        List.Forall₂ (fun row => row.GivesIn unicode file loop.function) rows new) := by
  induction rows generalizing loop file with
  | nil =>
      obtain rfl := Option.some.inj h
      exact ⟨[], by simp, le_refl _, fun _ => .nil⟩
  | cons row rows ih =>
      rw [List.map_cons, List.foldlM_cons] at h
      obtain ⟨next, hnext, hrest⟩ := Option.bind_eq_some_iff.mp h
      unfold parseLine at hnext
      cases hlocation : location row.print with
      | some place =>
          rw [hlocation] at hnext
          obtain rfl := Option.some.inj hnext
          obtain ⟨new, hnew, hlength, -⟩ := ih rfl hrest
          refine ⟨new, hnew, by simp only [List.length_cons]; omega, fun hequal => ?_⟩
          simp only [List.length_cons] at hequal
          omega
      | none =>
          rw [hlocation, hfile] at hnext
          cases hresult : resultRow unicode row.print with
          | none =>
              rw [hresult] at hnext
              obtain rfl := Option.some.inj hnext
              obtain ⟨new, hnew, hlength, -⟩ := ih hfile hrest
              refine ⟨new, hnew, by simp only [List.length_cons]; omega, fun hequal => ?_⟩
              simp only [List.length_cons] at hequal
              omega
          | some result =>
              rw [hresult] at hnext
              obtain ⟨property, hproperty, hloop⟩ := Option.bind_eq_some_iff.mp hnext
              obtain rfl := Option.some.inj hloop
              obtain ⟨new, hnew, hlength, hall⟩ := ih rfl hrest
              refine ⟨property :: new, by simp [hnew], by simpa using hlength, fun hequal => ?_⟩
              exact .cons ⟨hlocation, result, hresult, hproperty⟩ (hall (by simpa using hequal))

private theorem foldlM_rows {rows : List TableRow} {file function : Text}
    {property : TableRow → Property} (done : List Property)
    (h : ∀ row ∈ rows, row.GivesIn unicode file function (property row)) :
    (rows.map TableRow.print).foldlM (parseLine unicode) ⟨some file, function, done⟩ =
      some ⟨some file, function, done ++ rows.map property⟩ := by
  induction rows generalizing done with
  | nil => simp
  | cons row rows ih =>
      obtain ⟨hlocation, result, hresult, hproperty⟩ := h row List.mem_cons_self
      have hline : parseLine unicode ⟨some file, function, done⟩ row.print =
          some ⟨some file, function, done ++ [property row]⟩ := by
        simp [parseLine, hlocation, hresult, hproperty]
      rw [List.map_cons, List.foldlM_cons, hline]
      simp only [Option.bind_eq_bind, Option.bind_some]
      rw [ih _ fun other hother => h other (List.mem_cons_of_mem _ hother)]
      simp

private theorem of_foldlM_table {table : List TableGroup} {loop loop' : PropertyLoop}
    (h : (table.flatMap TableGroup.lines).foldlM (parseLine unicode) loop = some loop') :
    ∃ new, loop'.properties = loop.properties ++ new ∧ new.length ≤ (tableRows table).length ∧
      (new.length = (tableRows table).length → List.Forall₂ (Gives unicode) (tableRows table) new) := by
  induction table generalizing loop with
  | nil =>
      obtain rfl := Option.some.inj h
      exact ⟨[], by simp, le_refl _, fun _ => .nil⟩
  | cons group table ih =>
      obtain ⟨⟨file, function⟩, hlocation⟩ :=
        Option.isSome_iff_exists.mp (isSome_location_header group)
      have hheader : parseLine unicode loop group.header =
          some { loop with filename := some file, function := function } := by
        simp [parseLine, hlocation]
      rw [List.flatMap_cons, List.foldlM_append, TableGroup.lines, List.foldlM_cons, hheader] at h
      obtain ⟨next, hnext, hrest⟩ := Option.bind_eq_some_iff.mp h
      obtain ⟨new, hnew, hlength, hall⟩ := of_foldlM_rows rfl hnext
      obtain ⟨more, hmore, hlength', hall'⟩ := ih hrest
      have hrows : tableRows (group :: table) = group.rows.map (group, ·) ++ tableRows table :=
        List.flatMap_cons
      refine ⟨new ++ more, by simp [hmore, hnew], ?_, ?_⟩
      · simp only [hrows, List.length_append, List.length_map]
        omega
      · intro hequal
        simp only [hrows, List.length_append, List.length_map] at hequal
        have hgroup : List.Forall₂ (Gives unicode) (group.rows.map (group, ·)) new := by
          rw [List.forall₂_map_left_iff]
          exact (hall (by omega)).imp fun row property hgives => ⟨file, function, hlocation, hgives⟩
        rw [hrows]
        exact List.rel_append hgroup (hall' (by omega))

private theorem foldlM_table {table : List TableGroup} (loop : PropertyLoop)
    (h : ∀ entry ∈ tableRows table, Gives unicode entry (entry.2.property entry.1)) :
    ∃ loop', (table.flatMap TableGroup.lines).foldlM (parseLine unicode) loop = some loop' ∧
      loop'.properties = loop.properties ++ tableProperties table := by
  induction table generalizing loop with
  | nil => exact ⟨loop, rfl, by simp [tableProperties]⟩
  | cons group table ih =>
      have hrows : tableRows (group :: table) = group.rows.map (group, ·) ++ tableRows table :=
        List.flatMap_cons
      rw [hrows] at h
      obtain ⟨⟨file, function⟩, hlocation⟩ :=
        Option.isSome_iff_exists.mp (isSome_location_header group)
      have hheader : parseLine unicode loop group.header =
          some { loop with filename := some file, function := function } := by
        simp [parseLine, hlocation]
      have hgroup : ∀ row ∈ group.rows, row.GivesIn unicode file function (row.property group) := by
        intro row hrow
        obtain ⟨file', function', hlocation', hgives⟩ :=
          h (group, row) (List.mem_append_left _ (List.mem_map_of_mem hrow))
        obtain ⟨rfl, rfl⟩ := Prod.mk.inj (Option.some.inj (hlocation.symm.trans hlocation'))
        exact hgives
      obtain ⟨loop', hloop', hproperties⟩ :=
        ih ⟨some file, function, loop.properties ++ group.rows.map (·.property group)⟩
          fun entry hentry => h entry (List.mem_append_right _ hentry)
      refine ⟨loop', ?_, ?_⟩
      · rw [List.flatMap_cons, List.foldlM_append, TableGroup.lines, List.foldlM_cons, hheader]
        simp only [Option.bind_eq_bind, Option.bind_some]
        rw [foldlM_rows _ hgroup]
        exact hloop'
      · rw [hproperties]
        simp [tableProperties]

end Table

section RoundTrip

/-- A row is read as its property exactly if its identifier, its description
and its number are read back, and the function of its group is. -/
theorem gives_property_iff (group : TableGroup) (row : TableRow) :
    Gives unicode (group, row) (row.property group) ↔
      ¬separator <:+: group.function.val.dropLast ∧ row.ReadBack unicode := by
  constructor
  · rintro ⟨file, function, hlocation, hnone, result, hresult, hproperty⟩
    obtain ⟨number, hnumber, hparts⟩ := Option.bind_eq_some_iff.mp hproperty
    simp only [pure, Option.some.injEq, TableRow.property, Property.mk.injEq] at hparts
    obtain ⟨rfl, rfl, rfl, hcondition, -⟩ := hparts
    obtain ⟨hidentifier, hdescription⟩ := (location_print row).mp hnone
    obtain ⟨hstart, htail⟩ := eq_of_resultRow_print hresult (by simpa using hcondition)
    have hresult' := hresult.symm.trans (resultRow_print hstart htail)
    rw [Option.some.inj hresult'] at hnumber
    exact ⟨((location_eq_some (newline_not_mem_header group)).mp hlocation).2.2.2,
      hidentifier, hdescription, htail, hstart, (unicode.int_eq_some hnumber).2⟩
  · rintro ⟨hfunction, hrow⟩
    refine ⟨group.file.val, group.function.val, ?_, ?_, _, resultRow_print hrow.description_start
      hrow.description_tail, ?_⟩
    · exact (location_eq_some (newline_not_mem_header group)).mpr
        ⟨rfl, group.file.2.1, group.function.2.1, hfunction⟩
    · exact (location_print row).mpr ⟨hrow.identifier_separator, hrow.description_separator⟩
    · have hstatus : rowStatus row.verdict.text = row.verdict.status := by
        cases row.verdict <;> decide
      simp only [ResultRow.property, Unicode.int, if_pos hrow.number_short, unicode.value_toDigits,
        hstatus]
      rfl

/-- Nothing that has been read has an end of a line. -/
structure PropertyLoop.OneLine (loop : PropertyLoop) : Prop where
  filename : ∀ file ∈ loop.filename, ∀ char ∈ file, isBoundary char = false
  function : ∀ char ∈ loop.function, isBoundary char = false
  properties : ∀ property ∈ loop.properties,
    ∀ char ∈ property.file ++ (property.function ++ property.condition), isBoundary char = false

private theorem mem_of_location {line file function : Text} (h : location line = some (file, function)) :
    ∀ char ∈ file ++ function, char ∈ line := by
  unfold location at h
  split at h
  · rename_i hmatch
    obtain ⟨rfl, rfl⟩ := Prod.mk.inj (Option.some.inj h)
    intro char hchar
    rcases List.mem_append.mp hchar with hchar | hchar
    · exact mem_of_matchAt hmatch _ (by simp) char hchar
    · exact mem_of_matchAt hmatch _ (by simp) char hchar
  · cases h

private theorem mem_of_resultRow {line : Text} {result : ResultRow}
    (h : resultRow unicode line = some result) :
    ∀ char ∈ result.identifier ++ result.description, char ∈ line := by
  unfold resultRow at h
  split at h
  · rename_i hmatch
    obtain rfl := Option.some.inj h
    intro char hchar
    rcases List.mem_append.mp hchar with hchar | hchar
    · exact mem_of_matchAt hmatch _ (by simp) char hchar
    · exact mem_of_matchAt hmatch _ (by simp) char hchar
  · cases h

private theorem parseLine_oneLine {loop loop' : PropertyLoop} {line : Text} (hloop : loop.OneLine)
    (hline : ∀ char ∈ line, isBoundary char = false) (h : parseLine unicode loop line = some loop') :
    loop'.OneLine := by
  unfold parseLine at h
  split at h
  · rename_i file function hlocation
    obtain rfl := Option.some.inj h
    have hmem := mem_of_location hlocation
    refine ⟨?_, fun char hchar => hline char (hmem char (List.mem_append_right _ hchar)),
      hloop.properties⟩
    rintro file' ⟨⟩ char hchar
    exact hline char (hmem char (List.mem_append_left _ hchar))
  · split at h
    · rename_i file result hfile hresult
      obtain ⟨property, hproperty, hnext⟩ := Option.bind_eq_some_iff.mp h
      obtain rfl := Option.some.inj hnext
      refine ⟨hloop.filename, hloop.function, ?_⟩
      intro other hother
      rcases List.mem_append.mp hother with hother | hother
      · exact hloop.properties other hother
      · obtain rfl := List.mem_singleton.mp hother
        obtain ⟨number, -, hparts⟩ := Option.bind_eq_some_iff.mp hproperty
        obtain rfl := Option.some.inj hparts
        have hmem := mem_of_resultRow hresult
        intro char hchar
        simp only [List.mem_append] at hchar
        rcases hchar with hchar | hchar | (hchar | hchar) | hchar
        · exact hloop.filename file hfile char hchar
        · exact hloop.function char hchar
        · exact hline char (hmem char (List.mem_append_left _ hchar))
        · have hcolon : ": ".toList.all (!isBoundary ·) = true := by decide
          simpa using List.all_eq_true.mp hcolon char hchar
        · exact hline char (hmem char (List.mem_append_right _ hchar))
    · obtain rfl := Option.some.inj h
      exact hloop

/-- Nothing that is read has an end of a line. -/
private theorem parseProperties_oneLine {log : Text} {properties : List Property}
    (h : parseProperties unicode log = some properties) :
    ∀ property ∈ properties, ∀ char ∈ property.file ++ (property.function ++ property.condition),
      isBoundary char = false := by
  have hlines : ∀ line ∈ splitlines log, ∀ char ∈ line, isBoundary char = false :=
    fun line hline => isBoundary_of_mem_splitlines hline
  have hfold : ∀ (lines : List Text) (loop loop' : PropertyLoop),
      (∀ line ∈ lines, ∀ char ∈ line, isBoundary char = false) → loop.OneLine →
      lines.foldlM (parseLine unicode) loop = some loop' → loop'.OneLine := by
    intro lines
    induction lines with
    | nil =>
        intro loop loop' _ hloop heq
        obtain rfl := Option.some.inj heq
        exact hloop
    | cons line lines ih =>
        intro loop loop' hclean hloop heq
        obtain ⟨next, hnext, hrest⟩ := Option.bind_eq_some_iff.mp heq
        exact ih next loop' (fun other hother => hclean other (List.mem_cons_of_mem _ hother))
          (parseLine_oneLine hloop (hclean line List.mem_cons_self) hnext) hrest
  obtain ⟨loop, hloop, rfl⟩ := Option.map_eq_some_iff.mp h
  exact (hfold _ _ _ hlines ⟨by simp, by simp, by simp⟩ hloop).properties

/-- The tables that are read back. A group without rows leaves no trace. -/
def ReadBack (unicode : Unicode) (table : List TableGroup) : Prop :=
  ∀ group ∈ table, group.rows ≠ [] →
    (∀ char ∈ group.file.val ++ group.function.val, isBoundary char = false) ∧
    ¬separator <:+: group.function.val.dropLast ∧
    ∀ row ∈ group.rows, (∀ char ∈ row.identifier.val ++ row.description.val, isBoundary char = false) ∧
      row.ReadBack unicode

/-- The printed lines of a table without ends of lines in its texts. -/
private theorem splitlines_printTable {table : List TableGroup}
    (htable : ∀ group ∈ table, group.rows ≠ [] →
      (∀ char ∈ group.file.val ++ group.function.val, isBoundary char = false) ∧
      ∀ row ∈ group.rows, ∀ char ∈ row.identifier.val ++ row.description.val,
        isBoundary char = false) :
    splitlines (printTable table) = table.flatMap TableGroup.lines := by
  have hfixed : ∀ {text : Text}, text.all (!isBoundary ·) = true →
      ∀ char ∈ text, isBoundary char = false := by
    intro text htext char hchar
    simpa using List.all_eq_true.mp htext char hchar
  have happend : ∀ {left right : Text}, (∀ char ∈ left, isBoundary char = false) →
      (∀ char ∈ right, isBoundary char = false) → ∀ char ∈ left ++ right, isBoundary char = false :=
    fun hleft hright char hchar => (List.mem_append.mp hchar).elim (hleft char) (hright char)
  refine splitlines_unlines fun line hline => ?_
  obtain ⟨group, hgroup, hline⟩ := List.mem_flatMap.mp hline
  rcases List.mem_cons.mp hline with rfl | hline
  · have hheader : ∀ char ∈ group.file.val ++ group.function.val, isBoundary char = false := by
      by_cases hrows : group.rows = []
      · exact group.header_oneLine hrows
      · exact (htable group hgroup hrows).1
    exact happend (fun char hchar => hheader char (List.mem_append_left _ hchar))
      (happend (hfixed (by decide)) fun char hchar => hheader char (List.mem_append_right _ hchar))
  · obtain ⟨row, hrow, rfl⟩ := List.mem_map.mp hline
    have htexts := (htable group hgroup (List.ne_nil_of_mem hrow)).2 row hrow
    have hverdict : ∀ char ∈ row.verdict.text, isBoundary char = false := by
      cases row.verdict <;> exact hfixed (by decide)
    have hdigits : ∀ char ∈ Nat.toDigits 10 row.number, isBoundary char = false :=
      fun char hchar => isBoundary_of_isDigit (Nat.isDigit_of_mem_toDigits (by omega) (by omega) hchar)
    unfold TableRow.print
    refine happend (hfixed (by decide)) (happend hverdict (happend (hfixed (by decide))
      (happend (hfixed (by decide)) (happend ?_ (happend (hfixed (by decide))
        (happend (hfixed (by decide)) (happend (hfixed (by decide)) (happend (hfixed (by decide))
          (happend hdigits (happend (hfixed (by decide)) ?_))))))))))
    · exact fun char hchar => htexts char (List.mem_append_left _ hchar)
    · exact fun char hchar => htexts char (List.mem_append_right _ hchar)

private theorem tableProperties_eq (table : List TableGroup) :
    tableProperties table = (tableRows table).map fun entry => entry.2.property entry.1 := by
  simp [tableProperties, tableRows, List.map_flatMap, Function.comp_def]

/-- The properties of a printed table are read back exactly if the table has
no text that reads like another part of the table. -/
theorem parseProperties_printTable_iff (unicode : Unicode) (table : List TableGroup) :
    parseProperties unicode (printTable table) = some (tableProperties table) ↔
      ReadBack unicode table := by
  constructor
  · intro h
    have hclean := parseProperties_oneLine h
    have htexts : ∀ group ∈ table, ∀ row ∈ group.rows,
        (∀ char ∈ group.file.val ++ group.function.val, isBoundary char = false) ∧
        ∀ char ∈ row.identifier.val ++ row.description.val, isBoundary char = false := by
      intro group hgroup row hrow
      have hproperty := hclean (row.property group)
        (List.mem_flatMap.mpr ⟨group, hgroup, List.mem_map_of_mem hrow⟩)
      simp only [TableRow.property, List.mem_append] at hproperty ⊢
      exact ⟨fun char hchar => hproperty char (by tauto), fun char hchar => hproperty char (by tauto)⟩
    have hlines := splitlines_printTable fun group hgroup hrows => by
      obtain ⟨row, hrow⟩ := List.exists_mem_of_ne_nil _ hrows
      exact ⟨(htexts group hgroup row hrow).1, fun row hrow => (htexts group hgroup row hrow).2⟩
    unfold parseProperties at h
    rw [hlines] at h
    obtain ⟨loop, hloop, hproperties⟩ := Option.map_eq_some_iff.mp h
    obtain ⟨new, hnew, -, hall⟩ := of_foldlM_table hloop
    rw [hproperties, List.nil_append, tableProperties_eq] at hnew
    have hgives := hall (by rw [← hnew, List.length_map])
    rw [← hnew, List.forall₂_map_right_iff, List.forall₂_same] at hgives
    intro group hgroup hrows
    have hrow : ∀ row ∈ group.rows, ¬separator <:+: group.function.val.dropLast ∧
        row.ReadBack unicode := by
      intro row hrow
      exact (gives_property_iff group row).mp (hgives (group, row)
        (List.mem_flatMap.mpr ⟨group, hgroup, List.mem_map_of_mem hrow⟩))
    obtain ⟨row, hmem⟩ := List.exists_mem_of_ne_nil _ hrows
    exact ⟨(htexts group hgroup row hmem).1, (hrow row hmem).1,
      fun row hmem => ⟨(htexts group hgroup row hmem).2, (hrow row hmem).2⟩⟩
  · intro h
    have hlines := splitlines_printTable fun group hgroup hrows =>
      ⟨(h group hgroup hrows).1, fun row hrow => ((h group hgroup hrows).2.2 row hrow).1⟩
    have hgives : ∀ entry ∈ tableRows table, Gives unicode entry (entry.2.property entry.1) := by
      intro entry hentry
      obtain ⟨group, hgroup, hentry⟩ := List.mem_flatMap.mp hentry
      obtain ⟨row, hrow, rfl⟩ := List.mem_map.mp hentry
      obtain ⟨-, hfunction, hrows⟩ := h group hgroup (List.ne_nil_of_mem hrow)
      exact (gives_property_iff group row).mpr ⟨hfunction, (hrows row hrow).2⟩
    obtain ⟨loop, hloop, hproperties⟩ := foldlM_table ⟨none, [], []⟩ hgives
    unfold parseProperties
    rw [hlines, hloop, Option.map_some, hproperties, List.nil_append]

/-- A result that has failed disappears if its description reads like a location. -/
theorem failed_property_disappears :
    ¬∀ (unicode : Unicode) (table : List TableGroup),
      parseProperties unicode (printTable table) = some (tableProperties table) := by
  intro h
  have hlost := h .ascii [⟨⟨"a.cpp".toList, by decide⟩, ⟨"f".toList, by decide⟩,
    [⟨.failed, ⟨"f.1".toList, by decide⟩, 3, ⟨"call, function g".toList, by decide⟩⟩], nofun⟩]
  revert hlost
  decide +kernel

end RoundTrip

end AdaptivePi.Report
