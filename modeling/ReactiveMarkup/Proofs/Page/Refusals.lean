import ReactiveMarkup.Page.Extraction
import ReactiveMarkup.Proofs.Page.Renders

/-!
# Renders that fail

A command that shows rows resolves the conditions of its faces before anything else, and only this can
fail: a parity that is neither of the two, or a bound filter that does not parse. The first face that
cannot be resolved decides on the error. By then a render has done nothing that is not undone when it
ends, so the page is as it was, down to the holds on the component and its count of renders.

What comes later cannot tell whether such a render was asked for. A course is what happens to a page, one
thing after another, in whatever way it depends on the page. If the renders that fail are left out of a
course, everything else finds the very page that it would have found.
-/

namespace ReactiveMarkup

/-! ## Faces that cannot be resolved -/

theorem bind_eq_error_iff {ε α β : Type} {made : Except ε α} {next : α → Except ε β} {error : ε} :
    (made >>= next) = .error error ↔
      made = .error error ∨ ∃ result, made = .ok result ∧ next result = .error error := by
  cases made with
  | error other =>
      have hfails : ((Except.error other : Except ε α) >>= next) = .error other := rfl
      simp [hfails]
  | ok result =>
      have hgoes : (Except.ok result >>= next) = next result := rfl
      simp [hgoes]

/-- The first item that gives an error decides. -/
theorem mapM_eq_error_iff {ε α β : Type} {f : α → Except ε β} {items : List α} {error : ε} :
    items.mapM f = .error error ↔ ∃ before item after, items = before ++ item :: after ∧
      (∀ earlier ∈ before, ∃ result, f earlier = .ok result) ∧ f item = .error error := by
  induction items with
  | nil => exact iff_of_false nofun fun ⟨_, _, _, hnil, _⟩ => by simp at hnil
  | cons first rest ih =>
      have hlast : ∀ {result}, (rest.mapM f >>= fun others => (pure (result :: others) : Except ε _)) =
          .error error ↔ rest.mapM f = .error error := by
        intro result
        rw [bind_eq_error_iff]
        exact or_iff_left fun ⟨_, _, hpure⟩ => by cases hpure
      rw [List.mapM_cons, bind_eq_error_iff]
      constructor
      · rintro (hfirst | ⟨result, hfirst, hrest⟩)
        · exact ⟨[], first, rest, rfl, fun _ hnone => absurd hnone List.not_mem_nil, hfirst⟩
        · obtain ⟨before, item, after, rfl, hbefore, hitem⟩ := ih.mp (hlast.mp hrest)
          exact ⟨first :: before, item, after, rfl,
            List.forall_mem_cons.mpr ⟨⟨result, hfirst⟩, hbefore⟩, hitem⟩
      · rintro ⟨before, item, after, hitems, hbefore, hitem⟩
        cases before with
        | nil =>
            obtain ⟨rfl, -⟩ := List.cons.inj hitems
            exact .inl hitem
        | cons head before =>
            obtain ⟨rfl, rfl⟩ := List.cons.inj hitems
            obtain ⟨⟨result, hfirst⟩, hbefore⟩ := List.forall_mem_cons.mp hbefore
            exact .inr ⟨result, hfirst, hlast.mpr (ih.mpr ⟨before, item, after, rfl, hbefore, hitem⟩)⟩

/-- A parity is in error when it is a word other than the two. -/
theorem RowType.read_eq_error_iff {text : String} {error : Error} :
    RowType.read text = .error error ↔ ∃ word, Unicode.lower (Text.trim text) = word ∧ word ≠ "" ∧
      word ≠ "odd" ∧ word ≠ "even" ∧ error = .invalidMarkup (.badRowType word) := by
  rw [RowType.read]
  generalize Unicode.lower (Text.trim text) = word
  constructor
  · intro h
    split at h
    · cases h
    · next hfilled =>
        split at h
        · cases h
        · next hodd =>
            split at h
            · cases h
            · next heven => exact ⟨word, rfl, hfilled, hodd, heven, (Except.error.inj h).symm⟩
  · rintro ⟨other, rfl, hfilled, hodd, heven, rfl⟩
    rw [if_neg hfilled, if_neg hodd, if_neg heven]

/-- The conditions of a face cannot be resolved: its parity is a word other than the two, or its parity is
resolved and its filter has bindings and comes to a text that does not parse. -/
inductive Face.Refuses (face : Face) (find : String → Option Source) : Error → Prop
  | rowType {token : Token} {word : String} (bound : face.rowType = some token)
    (reads : Unicode.lower (Text.trim (token.text find)) = word) (filled : word ≠ "")
    (odd : word ≠ "odd") (even : word ≠ "even") : Refuses face find (.invalidMarkup (.badRowType word))
  | filter {token : Token} {parity : Option RowType} {error : Error}
    (resolved : face.resolveRowType find = .ok parity) (bound : face.filter = some (.bound token))
    (filled : Text.trim (token.text find) ≠ "")
    (malformed : Expression.parse (Text.trim (token.text find)) = .error error) :
    Refuses face find error

/-- A command cannot be shown because of its first face that cannot be resolved. -/
def ShowCommand.Refuses (command : ShowCommand) (find : String → Option Source) (error : Error) : Prop :=
  ∃ before face after, command.faces = before ++ face :: after ∧
    (∀ earlier ∈ before, ∀ other, ¬earlier.Refuses find other) ∧ face.Refuses find error

section

variable {face : Face} {command : ShowCommand} {find : String → Option Source} {source : Source}
  {error : Error}

theorem Face.resolveRowType_eq_error_iff : face.resolveRowType find = .error error ↔
    ∃ token, face.rowType = some token ∧ RowType.read (token.text find) = .error error := by
  rw [resolveRowType]
  cases face.rowType with
  | none => exact iff_of_false nofun fun ⟨_, h, _⟩ => by cases h
  | some token => exact ⟨fun h => ⟨token, rfl, h⟩, fun ⟨_, hsame, h⟩ => Option.some.inj hsame ▸ h⟩

theorem Face.resolveRows_eq_error_iff : face.resolveRows find source = .error error ↔
    ∃ token, face.filter = some (.bound token) ∧ Text.trim (token.text find) ≠ "" ∧
      Expression.parse (Text.trim (token.text find)) = .error error := by
  rw [resolveRows]
  cases face.filter with
  | none => exact iff_of_false nofun fun ⟨_, h, _⟩ => by cases h
  | some filter =>
      cases filter with
      | parsed expr => exact iff_of_false nofun fun ⟨_, h, _⟩ => by cases h
      | bound token =>
          dsimp only
          constructor
          · intro h
            split at h
            · cases h
            · next hfilled =>
                refine ⟨token, rfl, hfilled, ?_⟩
                cases hparse : Expression.parse (Text.trim (token.text find)) with
                | ok expr =>
                    rw [hparse] at h
                    cases h
                | error other =>
                    rw [hparse] at h
                    exact congrArg Except.error (Except.error.inj h)
          · rintro ⟨other, hsame, hfilled, hparse⟩
            cases hsame
            rw [if_neg hfilled, hparse]
            rfl

theorem Face.refuses_iff : face.Refuses find error ↔ face.resolveRowType find = .error error ∨
    (∃ parity, face.resolveRowType find = .ok parity) ∧ face.resolveRows find source = .error error := by
  rw [resolveRowType_eq_error_iff, resolveRows_eq_error_iff]
  constructor
  · rintro (⟨hbound, hreads, hfilled, hodd, heven⟩ | ⟨hresolved, hbound, hfilled, hmalformed⟩)
    · exact .inl ⟨_, hbound, RowType.read_eq_error_iff.mpr ⟨_, hreads, hfilled, hodd, heven, rfl⟩⟩
    · exact .inr ⟨⟨_, hresolved⟩, _, hbound, hfilled, hmalformed⟩
  · rintro (⟨token, hbound, hread⟩ | ⟨⟨parity, hresolved⟩, token, hbound, hfilled, hmalformed⟩)
    · obtain ⟨word, hreads, hfilled, hodd, heven, rfl⟩ := RowType.read_eq_error_iff.mp hread
      exact .rowType hbound hreads hfilled hodd heven
    · exact .filter hresolved hbound hfilled hmalformed

theorem Face.resolve_eq_error_iff : face.resolve find source = .error error ↔ face.Refuses find error := by
  rw [@refuses_iff face find source error, resolve, bind_eq_error_iff]
  refine or_congr_right ⟨?_, ?_⟩
  · rintro ⟨parity, hparity, hrows⟩
    rcases bind_eq_error_iff.mp hrows with hrows | ⟨_, _, hpure⟩
    · exact ⟨⟨parity, hparity⟩, hrows⟩
    · cases hpure
  · rintro ⟨⟨parity, hparity⟩, hrows⟩
    exact ⟨parity, hparity, bind_eq_error_iff.mpr (.inl hrows)⟩

theorem Face.exists_resolve_iff : (∃ resolved, face.resolve find source = .ok resolved) ↔
    ∀ error, ¬face.Refuses find error := by
  cases h : face.resolve find source with
  | ok resolved =>
      refine iff_of_true ⟨resolved, rfl⟩ fun error hrefuses => ?_
      rw [resolve_eq_error_iff.mpr hrefuses] at h
      cases h
  | error error =>
      exact iff_of_false (fun ⟨_, hok⟩ => by cases hok) fun hnone =>
        hnone error (resolve_eq_error_iff.mp h)

/-- A refresh fails where the faces cannot be resolved, and nowhere else. -/
theorem ShowCommand.refresh_eq_error_iff {pattern : Pattern} {markup : Markup} :
    command.refresh find pattern markup source = .error error ↔ command.Refuses find error := by
  have hresolve : command.refresh find pattern markup source = .error error ↔
      (command.faces.mapM fun face => face.resolve find source) = .error error := by
    rw [refresh, bind_eq_error_iff]
    refine or_iff_left fun hfails => ?_
    obtain ⟨_, _, hpure⟩ := hfails
    cases hpure
  rw [hresolve, mapM_eq_error_iff]
  refine exists_congr fun before => exists_congr fun face => exists_congr fun after =>
    and_congr_right fun _ => and_congr ?_ Face.resolve_eq_error_iff
  exact forall_congr' fun earlier => imp_congr_right fun _ => Face.exists_resolve_iff

end

namespace Page

/-! ## Renders that fail -/

variable {page : Page} {id : ComponentId} {cell : Component} {command : ShowCommand}
  {cause : Option Source} {error : Error}

/-- Entering a render and leaving it changes nothing. -/
theorem releaseTask_enter_self (page : Page) (id : ComponentId) :
    ((page.holdComponent id).changeComponent id fun cell =>
      { cell with inFlight := cell.inFlight + 1 }).releaseTask (some id) true = page :=
  page.releaseTask_enter id fun markup => markup

/-- A render of a command that shows rows is a refresh, if it takes place and the source is there. Unless the
refresh goes well, nothing is left of it. -/
theorem render_faces (hcell : page.components.get? id = some cell)
    (hfaces : cell.behaviour = .faces command) (cause : Option Source) :
    (page.render id cause = (page, .done) ∧
        ¬(cell.admits = true ∧ page.scopes.isAlive cell.scope = true ∧
          ∃ source, page.scopes.find? cell.scope command.sourceId = some source)) ∨
      (cell.admits = true ∧ page.scopes.isAlive cell.scope = true) ∧
        ∃ source, page.scopes.find? cell.scope command.sourceId = some source ∧
          match command.refresh (page.scopes.find? cell.scope) page.patterns.row page.markup source with
          | .error error => page.render id cause = (page, .finished (.error error))
          | .ok _ => (page.render id cause).2 = .done := by
  obtain ⟨entered, hentered⟩ : ∃ entered, (page.holdComponent id).changeComponent id
    (fun cell => { cell with inFlight := cell.inFlight + 1 }) = entered := ⟨_, rfl⟩
  have hleft : entered.releaseTask (some id) true = page := hentered ▸ page.releaseTask_enter_self id
  have hscopes : entered.scopes = page.scopes := by rw [← hentered]; rfl
  have hmarkup : entered.markup = page.markup := by rw [← hentered]; rfl
  have hpatterns : entered.patterns = page.patterns := by rw [← hentered]; rfl
  rw [render, hcell]
  dsimp only
  rw [hentered, beginRender, hfaces]
  dsimp only
  rw [renderNow, hfaces]
  dsimp only
  rw [hscopes, hmarkup, hpatterns]
  cases hadmits : cell.admits with
  | false => exact .inl ⟨rfl, fun h => by cases h.1⟩
  | true =>
      rw [if_pos rfl]
      cases halive : page.scopes.isAlive cell.scope with
      | false =>
          refine .inl ⟨?_, fun h => by cases h.2.1⟩
          exact congrArg (·, Progress.done) hleft
      | true =>
          rw [if_pos rfl]
          cases hsource : page.scopes.find? cell.scope command.sourceId with
          | none =>
              refine .inl ⟨congrArg (·, Progress.done) hleft, fun htakes => ?_⟩
              obtain ⟨_, _, _, hfound⟩ := htakes
              cases hfound
          | some source =>
              refine .inr ⟨⟨rfl, rfl⟩, source, rfl, ?_⟩
              dsimp only
              cases command.refresh (page.scopes.find? cell.scope) page.patterns.row page.markup source with
              | error error => exact congrArg (·, Progress.finished (.error error)) hleft
              | ok refreshed => rfl

/-- A render of a command that shows rows fails when it takes place, the source is there and the command
cannot be shown. -/
theorem render_fails_iff (hcell : page.components.get? id = some cell)
    (hfaces : cell.behaviour = .faces command) :
    (page.render id cause).2 = .finished (.error error) ↔
      (cell.admits = true ∧ page.scopes.isAlive cell.scope = true ∧
        ∃ source, page.scopes.find? cell.scope command.sourceId = some source) ∧
        command.Refuses (page.scopes.find? cell.scope) error := by
  rcases render_faces hcell hfaces cause with ⟨hrender, hnot⟩ | ⟨⟨hadmits, halive⟩, source, hsource, hrefresh⟩
  · rw [hrender]
    exact iff_of_false nofun fun h => hnot h.1
  · rw [and_iff_right ⟨hadmits, halive, source, hsource⟩]
    rw [← @ShowCommand.refresh_eq_error_iff command _ source error page.patterns.row page.markup]
    split at hrefresh
    · next other hother =>
        rw [hrefresh, hother]
        simp
    · next refreshed hgood =>
        rw [hrefresh, hgood]
        exact iff_of_false nofun nofun

/-- A render that fails leaves the page as it was. -/
theorem render_of_fails (hcell : page.components.get? id = some cell)
    (hfaces : cell.behaviour = .faces command)
    (hfails : (page.render id cause).2 = .finished (.error error)) : (page.render id cause).1 = page := by
  rcases render_faces hcell hfaces cause with ⟨hrender, -⟩ | ⟨-, source, -, hrefresh⟩
  · rw [hrender]
  · split at hrefresh
    · rw [hrefresh]
    · rw [hrefresh] at hfails
      cases hfails

/-! ## Courses -/

/-- One thing that happens to a page: a component is asked to render, or anything else. -/
inductive Occurrence where
  | render (id : ComponentId) (cause : Option Source)
  | other (change : Page → Page)

namespace Occurrence

/-- The page after an occurrence. -/
def play (page : Page) : Occurrence → Page
  | .render id cause => (page.render id cause).1
  | .other change => change page

/-- Whether an occurrence is a render that fails, of a command that shows rows. -/
def fails (page : Page) : Occurrence → Bool
  | .render id cause =>
    match (page.components.get? id).map Component.behaviour, (page.render id cause).2 with
    | some (.faces _), .finished (.error _) => true
    | _, _ => false
  | .other _ => false

theorem fails_render_iff : fails page (.render id cause) = true ↔ ∃ cell command error,
    page.components.get? id = some cell ∧ cell.behaviour = .faces command ∧
      (page.render id cause).2 = .finished (.error error) := by
  constructor
  · intro h
    rw [fails] at h
    split at h
    · next command error hshows hfails =>
        obtain ⟨cell, hcell, hfaces⟩ := Option.map_eq_some_iff.mp hshows
        exact ⟨cell, command, error, hcell, hfaces, hfails⟩
    · cases h
  · rintro ⟨cell, command, error, hcell, hfaces, hfails⟩
    rw [fails, hcell, Option.map_some, hfaces, hfails]

theorem play_of_fails {occurrence : Occurrence} (h : occurrence.fails page = true) :
    occurrence.play page = page := by
  cases occurrence with
  | other change => cases h
  | render id cause =>
      obtain ⟨cell, command, error, hcell, hfaces, hfails⟩ := fails_render_iff.mp h
      exact render_of_fails hcell hfaces hfails

end Occurrence

/-- The page after a course. -/
def reach (page : Page) (course : List Occurrence) : Page := course.foldl Occurrence.play page

/-- All that happens in a course, each with the page it finds. -/
def encounters : Page → List Occurrence → List (Page × Occurrence)
  | _, [] => []
  | page, occurrence :: rest => (page, occurrence) :: encounters (occurrence.play page) rest

/-- A course without the renders of it that fail. -/
def withoutFailing : Page → List Occurrence → List Occurrence
  | _, [] => []
  | page, occurrence :: rest =>
    if occurrence.fails page then withoutFailing (occurrence.play page) rest
    else occurrence :: withoutFailing (occurrence.play page) rest

theorem reach_withoutFailing (page : Page) (course : List Occurrence) :
    page.reach (page.withoutFailing course) = page.reach course := by
  induction course generalizing page with
  | nil => rfl
  | cons occurrence rest ih =>
      rw [withoutFailing]
      cases hfails : occurrence.fails page with
      | true =>
          have hsame := Occurrence.play_of_fails hfails
          rw [if_pos rfl, hsame, ih, reach, reach, List.foldl_cons, hsame]
      | false => exact ih _

theorem encounters_withoutFailing (page : Page) (course : List Occurrence) :
    page.encounters (page.withoutFailing course) =
      (page.encounters course).filter fun encounter => !encounter.2.fails encounter.1 := by
  induction course generalizing page with
  | nil => rfl
  | cons occurrence rest ih =>
      rw [withoutFailing, encounters, List.filter_cons]
      cases hfails : occurrence.fails page with
      | true =>
          rw [Occurrence.play_of_fails hfails]
          exact ih page
      | false => exact congrArg _ (ih _)

/-- The parity that the rows of a list are told to have. -/
def toldParity (word : String) : Source := .ofValue "ui.rows" (.object [("parity", .string word)])

/-- A page with a list of items whose face has a parity with a binding. -/
def striped (word : String) (page : Page) : Page :=
  let (markup, list) := page.markup.create (.element "ul" [("core", "list"), ("source", "db.items")])
  let (markup, face) := markup.create (.element "face" [("rowtype", "[##ui.rows.parity##]")])
  let (markup, mark) := markup.create (.text "@v")
  let made := createCommand { page with markup := (markup.append face mark).append list face } rootScope
    rootRegistry "list" list
  let items : Source := .ofValue "db.items" (.array [.object [("v", .string "x")]])
  ((made.1.setSource rootScope items).1.setSource rootScope (toldParity word)).1

/-- The list is rendered while its parity is no parity, and again when it is one. -/
def mended : List Occurrence :=
  [.render 0 none, .other fun page => (page.setSource rootScope (toldParity "odd")).1, .render 0 none]

/-- Whether the first render fails, and the item shows after the second one. -/
def mends (page : Page) : Bool :=
  Occurrence.fails (striped "thrice" page) (.render 0 none) &&
    ((striped "thrice" page).withoutFailing mended).length == 2 &&
    ((striped "thrice" page).reach mended).markup.innerText 0 == "x"

end Page

end ReactiveMarkup
