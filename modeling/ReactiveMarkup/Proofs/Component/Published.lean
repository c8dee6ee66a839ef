import ReactiveMarkup.Component.LoadCommand
import ReactiveMarkup.Proofs.Binding.Alternatives
import ReactiveMarkup.Proofs.Face.Reading
import ReactiveMarkup.Proofs.Scope.Sightings
import ReactiveMarkup.Proofs.Scope.Twins
import ReactiveMarkup.Proofs.Source.Slots
import ReactiveMarkup.Proofs.Unicode.Casing

/-!
# Where published sources are looked for

A load command publishes the result set of a member under its own name and that of the member, with a full stop
between them. Whoever reads the source writes the two names in the same way: in a path of an object binding, in
the attribute of a command that shows rows, or where a source is asked for by its id. All of these make the
joined text small, but the command made its own name small when it was read, and only then joined them.

That is the same text again but for one letter. A name that ends in a capital sigma has a final sigma when it
is small, and the joined text does not, when the name of the member goes on with a cased letter. Then a source
is published where nobody looks for it.
-/

open ReactiveMarkup.Alternative (Segment Spelling)

namespace ReactiveMarkup

open Reading (Triple)

section

variable {options : Options} {patterns : BindingPatterns} {providers : Providers} {markup : Markup}
  {node : NodeId}

theorem Reading.Triple.trivial {α : Type} {P : Markup → Prop} (reading : Reading α) :
    Triple P reading fun _ _ => True := fun _ _ _ _ => True.intro

theorem LoadCommand.read_name {name : String} {result : LoadCommand × Priority}
    (h : ((LoadCommand.read options patterns providers node).run markup).1 = .ok result)
    (hname : (markup.kind node).filledAttribute? "name" = some name) :
    result.1.name = Unicode.lower name := by
  have hread : Triple (fun before => (before.kind node).filledAttribute? "name" = some name)
      (LoadCommand.read options patterns providers node) fun result _ =>
        result.1.name = Unicode.lower name := by
    rw [LoadCommand.read]
    refine Triple.get.bind fun before => Triple.of_get
      (P := fun before => (before.kind node).filledAttribute? "name" = some name) fun hbefore => ?_
    dsimp only
    rw [hbefore]
    refine (Triple.trivial _).bind fun provider => (Triple.trivial _).bind fun retries =>
      (Triple.trivial _).bind fun read => (Triple.trivial _).bind fun members =>
        (Triple.trivial _).bind fun parameters => Triple.pure fun _ _ => rfl
  exact hread markup hname result h

theorem ShowCommand.read_sourceId {command : ShowKind} {source : String}
    {result : ShowCommand × Priority}
    (h : ((ShowCommand.read patterns command node).run markup).1 = .ok result)
    (hsource : (markup.kind node).filledAttribute? "source" = some source) :
    result.1.sourceId = Unicode.lower source := by
  have hread : Triple (fun before => (before.kind node).filledAttribute? "source" = some source)
      (ShowCommand.read patterns command node) fun result _ =>
        result.1.sourceId = Unicode.lower source := by
    rw [ShowCommand.read]
    refine Triple.get.bind fun before => Triple.of_get
      (P := fun before => (before.kind node).filledAttribute? "source" = some source) fun hbefore => ?_
    dsimp only
    rw [hbefore]
    refine (Triple.trivial _).bind fun rowCount => (Triple.trivial _).bind fun arrangement =>
      (Triple.trivial _).bind fun layout => (Triple.trivial _).bind fun read =>
        (Triple.trivial _).bind fun faces => Triple.pure fun _ _ => rfl
  exact hread markup hsource result h

end

/-- Setting a source is seen under its id. -/
theorem Scopes.History.find?_set {scopes : Scopes} {direct : Direct} (h : History scopes direct)
    {scope : ScopeId} (hlt : scope < scopes.scopes.size) {source : Source} {name : String}
    (hid : Unicode.lower source.id = source.id) (hname : Unicode.lower name = source.id) :
    (scopes.set scope source).1.find? scope name = some (scopes.set scope source).2 := by
  have hset := h.set hlt hid
  have hgiven : direct.give scope (scopes.set scope source).2 scope (Unicode.lower name) =
      some (scopes.set scope source).2 := by
    rw [hname, ← (set_eq scopes scope source).1, Direct.give_self]
  rw [hset.find?_eq_record, lineage, lineageTo, List.findSome?_cons, hgiven]

namespace Alternative

/-- The names of a command and of a member of it, as they are written for its source. -/
def Segment.joined (space name : Segment) : String :=
  String.ofList space.text ++ "." ++ String.ofList name.text

/-- Whether an id is the one that the two names are looked for under. -/
structure Sought (space name : Segment) (id : String) : Prop where
  /-- In a path of an object binding, with columns of the source or for its existence. -/
  bound : ∀ columns : List Segment,
    parseAll (String.ofList (Spelling.path space name columns none).written) = .ok [.path
      ⟨id, if columns.isEmpty then none else some (columns.map fun column => String.ofList column.text)⟩]
  /-- In a command that shows rows. -/
  shown : ∀ (patterns : BindingPatterns) (command : ShowKind) (markup : Markup) (node : NodeId) result,
    ((ShowCommand.read patterns command node).run markup).1 = .ok result →
      (markup.kind node).filledAttribute? "source" = some (space.joined name) → result.1.sourceId = id
  /-- Wherever a source is asked for. -/
  asked : ∀ (scopes : Scopes) scope, scopes.find? scope (space.joined name) = scopes.find? scope id

theorem sought_lower (space name : Segment) : Sought space name (Unicode.lower (space.joined name)) where
  bound columns := by
    let entry := Entry.ofPath space name columns none
    have hwritten : (Spelling.path space name columns none).written = entry.written := by
      rw [Entry.written]
      exact (List.append_nil _).symm
    have hcut : splitBars 0 entry.written = [entry.written] := splitBars_last (Option.some_ne_none 0)
    have hread := mapM_parse_written [entry]
    rw [parseAll, String.toList_ofList, hwritten, hcut]
    rw [List.map_singleton] at hread
    rw [hread]
    cases columns <;> simp [entry, Entry.ofPath, Spelling.meaning, Spelling.columnNames, Segment.joined]
  shown _ _ _ _ _ := ShowCommand.read_sourceId
  asked scopes scope := (scopes.find?_lower scope _).symm

end Alternative

/-- A member is published where it is looked for, unless the name of its command ends in a capital sigma and its
own goes on with a cased letter. Setting it is seen there exactly then. -/
theorem LoadCommand.published_where_sought {options : Options} {patterns : BindingPatterns}
    {providers : Providers} {markup : Markup} {node : NodeId} {command : LoadCommand} {priority : Priority}
    (hload : ((LoadCommand.read options patterns providers node).run markup).1 = .ok (command, priority))
    {space name : Segment}
    (hspace : (markup.kind node).filledAttribute? "name" = some (String.ofList space.text))
    {sets : ResultSets} {member : Member} {rows : List Row}
    (hmember : (member, rows) ∈ command.members.zip sets) (hname : member.name = String.ofList name.text) :
    ∃ published ∈ command.sources sets, published.rows = rows ∧ published.options = member.options ∧
      ∃ id, Alternative.Sought space name id ∧
        (published.id = id ↔
          Unicode.endsInSigma space.text = false ∨ Unicode.nextIsCased name.text = false) ∧
        ∀ {scopes : Scopes} {direct : Scopes.Direct} {scope : ScopeId}, Scopes.History scopes direct →
          scope < scopes.scopes.size → (scopes.set scope published).1.find? scope (space.joined name) =
            if published.id = id then some (scopes.set scope published).2
            else scopes.find? scope (space.joined name) := by
  have hcommand := LoadCommand.read_name hload hspace
  dsimp only at hcommand
  refine ⟨Source.make (command.name ++ "." ++ member.name) rows member.options,
    List.mem_map.mpr ⟨(member, rows), hmember, rfl⟩, SlotBook.rows_make .., rfl,
    Unicode.lower (space.joined name), Alternative.sought_lower space name, ?_, ?_⟩
  · have hjoined := Unicode.lower_joined_lower_iff (String.ofList space.text) (String.ofList name.text)
    rw [String.toList_ofList, String.toList_ofList] at hjoined
    rw [← hjoined, Source.make, hcommand, hname]
    rfl
  · intro scopes direct scope hhistory hlt
    have hid := Scopes.lower_id_make (command.name ++ "." ++ member.name) rows member.options
    split
    · next hsame => exact hhistory.find?_set hlt hid hsame.symm
    · next hother => exact hhistory.find?_set_of_ne hlt hid (Ne.symm hother) scope

/-- A command with one member, `users`. -/
def usersLoad (name : String) : Markup := ⟨#[
  { kind := .element "div" [("name", name)], children := [1] },
  { kind := .element "member" [("name", "users")], parent := some 0 }]⟩

/-- A sign stands for every binding; the command has none. -/
def loadPatterns : BindingPatterns :=
  ⟨.ofRule (.one (.single '@')), .ofRule (.one (.single '@')), .ofRule (.one (.single '@'))⟩

/-- What such a command is read as. -/
def usersRead (name : String) : Except Error (LoadCommand × Priority) :=
  ((LoadCommand.read {} loadPatterns (Providers.register {} Providers.defaultName (.plan [])) 0).run
    (usersLoad name)).1

def adaRow : Row := [("name", .string "ada")]

/-- What is seen of the member in the outermost scope, after it was published there. -/
def usersSeen (name : String) : Option (List (String × Option (List String))) :=
  (usersRead name).toOption.map fun result => (result.1.sources [[adaRow]]).map fun published =>
    (published.id, ((((Scopes.create {} none).1.hold 0).set 0 published).1.find? 0 (name ++ ".users")).map
      fun found => found.rows.map fun row => (Value.object row).compact)

/-- A source is published under an id with a final sigma, and looked for under one without. -/
theorem sigma_member_not_seen :
    usersSeen "ΑΣ" = some [("ας.users", none)] ∧
      Alternative.parseAll "ΑΣ.users.name" = .ok [.path ⟨"ασ.users", some ["name"]⟩] := by
  decide +kernel

def appSegment : Segment := ⟨['A', 'p', 'p'], by decide +kernel⟩

def usersSegment : Segment := ⟨['u', 's', 'e', 'r', 's'], by decide +kernel⟩

theorem users_published_where_sought : ∃ command priority published id,
    usersRead "App" = .ok (command, priority) ∧ published ∈ command.sources [[adaRow]] ∧
      published.rows = [adaRow] ∧ Alternative.Sought appSegment usersSegment id ∧ published.id = id ∧
        (((Scopes.create {} none).1.hold 0).set 0 published).1.find? 0 "App.users" =
          some (((Scopes.create {} none).1.hold 0).set 0 published).2 := by
  have hmembers : (usersRead "App").toOption.map (fun result => result.1.members.map Member.name) =
      some ["users"] := by decide +kernel
  cases hread : usersRead "App" with
  | error error =>
      rw [hread] at hmembers
      cases hmembers
  | ok result =>
      obtain ⟨command, priority⟩ := result
      rw [hread] at hmembers
      obtain ⟨member, hmember, hname⟩ := List.map_eq_singleton_iff.mp (Option.some.inj hmembers)
      have hzip : (member, [adaRow]) ∈ command.members.zip [[adaRow]] := by
        rw [hmember]
        exact List.mem_singleton_self _
      obtain ⟨published, hpublished, hrows, -, id, hsought, hid, hseen⟩ :=
        LoadCommand.published_where_sought hread
          (show _ = some (String.ofList appSegment.text) by decide +kernel) hzip
          (show member.name = String.ofList usersSegment.text from hname)
      have hsame := hid.mpr (.inl (by decide +kernel))
      have hfound := hseen (.root []) (show 0 < 1 by decide)
      rw [if_pos hsame] at hfound
      exact ⟨command, priority, published, id, rfl, hpublished, hrows, hsought, hsame, hfound⟩

end ReactiveMarkup
