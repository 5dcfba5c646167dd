import MessageExport.Proofs.Export.Start
import MessageExport.Proofs.Instant.Timestamp
import MessageExport.Proofs.Json.Printing
import MessageExport.Proofs.Wire.Decoding
import MessageExport.Proofs.Wire.Members
import MessageExport.Wire.Encode
/-!
# MessageExport.Proofs.Wire.TimeRange

**Absolute time ranges** keep their instants.

The two ends of a range are written on any clock and decoded as instants, which only have
to be in range for that; then they are written on a clock of universal time. Both ways are
those of a `Timestamp`, so nothing here looks into a calendar.
-/

namespace MessageExport

open Calendar

namespace Wire

open Json (Content Source Tree)

/-- The members of an absolute range, with its two ends as they are written. -/
def absoluteMembers (first last : String) : List (Option String × Content) :=
  [(some "type", .text (some "absolute")), (some "from", .text (some first)),
    (some "to", .text (some last))]

/-- The text is an absolute range with these ends, its members in any order. -/
def IsAbsolute (s : Source) (first last : String) : Prop :=
  ∃ members, s.content = .object members ∧ members.Perm (absoluteMembers first last)

/-- An absolute range is decoded if its ends are read. -/
theorem decodeText_absolute {s : Source} {first last : String} {start stop : Instant}
    (hs : IsAbsolute s first last) (hfirst : Instant.ofString first = .ok start)
    (hlast : Instant.ofString last = .ok stop) :
    decodeText (.tagged .timeRange) s.text = .ok (.absolute start stop) := by
  obtain ⟨members, hcontent, hmembers⟩ := hs
  rw [decodeText_eq_ok_iff, hcontent]
  refine taggedIn_object.mpr ⟨absoluteVariant, (start, stop, ()), ?_, ?_, rfl⟩
  · rw [withName, onlyIn_perm _ _ (hmembers.filter _)]
    rfl
  · have hends : (absoluteMembers first last).filter
        (fun member => member.1 != some (TaggedKind.tag .timeRange)) =
          [(some "from", .text (some first)), (some "to", .text (some last))] := rfl
    rw [withoutName, membersIn_perm _ _ _ (hmembers.filter _), hends]
    have hstart : (Instant.ofString first).toOption = some start := by rw [hfirst]; rfl
    have hstop : (Instant.ofString last).toOption = some stop := by rw [hlast]; rfl
    exact membersIn_cons.mpr ⟨hstart, membersIn_cons.mpr ⟨hstop,
      membersIn_nil.mpr (List.forall_mem_nil _)⟩⟩

/-- An absolute range as it is written. -/
def absoluteTree (first last : String) : Tree :=
  .object [("type", .text "absolute"), ("from", .text first), ("to", .text last)]

/-- What is written for a range is a text of the range. -/
theorem exists_isAbsolute (first last : String) :
    ∃ s : Source, s.text = (absoluteTree first last).compact.toList ∧
      IsAbsolute s first last := by
  have hnatural : (absoluteTree first last).Natural := by
    refine .object fun member hmember => ?_
    simp only [List.mem_cons, List.not_mem_nil, or_false] at hmember
    rcases hmember with rfl | rfl | rfl <;> exact .text _
  obtain ⟨s, htext, hcontent⟩ := Json.exists_source_compact hnatural
  refine ⟨s, htext, _, hcontent.trans ?_, List.Perm.refl _⟩
  simp only [absoluteTree, Tree.content, Tree.memberContents, absoluteMembers]

/-- Whatever it is started with, an export of every message of a query prints the range of
the query. -/
theorem lookup_timerange {view : View} {query : Query} {table : Option Widget}
    {fields : List SelectedField} {sort : List SortEntry} {started : Started} {payload : Payload}
    (hqueries : view.search.queries = [query])
    (hstarted : view.startExport table fields sort = .ok started)
    (hrequest : started.request = .allMessages payload) :
    ∃ members,
      started.request.toJson =
        .object [("kind", .text "all_messages"), ("payload", .object members)] ∧
      members.lookup "timerange" = some query.timeRange.toJson := by
  cases View.startOutcome_of_eq hstarted with
  | limited => cases hrequest
  | @full sole _ hsole =>
      obtain rfl : sole = query := by
        rw [hsole] at hqueries
        exact (List.cons.inj hqueries).1
      exact ⟨_, rfl, rfl⟩

end Wire

/-- **Absolute ranges keep their instants.** A range whose ends are written as timestamps
of four-digit years, on any clocks, is decoded, and every other text of the same instants
is decoded as the same value. What is written for it, and what an export of every message
prints, has timestamps in universal time that denote the same instants to the nanosecond.

A text denotes one instant only, and day numbers count the days of the calendar one by
one, from the first of January 1970. -/
theorem absolute_range_keeps_instants :
    (∀ first last : Timestamp, first.FourDigits → last.FourDigits →
      ∃ (start stop : Instant) (first' last' : Timestamp),
        Wire.decodeText (.tagged .timeRange)
          (Wire.absoluteTree first.text last.text).compact.toList = .ok (.absolute start stop) ∧
        (∀ other other' : Timestamp, other.FourDigits → other'.FourDigits →
          other.count = first.count → other'.count = last.count →
            ∀ s : Json.Source, Wire.IsAbsolute s other.text other'.text →
              Wire.decodeText (.tagged .timeRange) s.text = .ok (.absolute start stop)) ∧
        (TimeRange.absolute start stop).toJson = Wire.absoluteTree first'.text last'.text ∧
        first'.count = first.count ∧ last'.count = last.count ∧
        (∀ stamp ∈ [first', last'], stamp.Readable ∧ stamp.zone = .universal ∧
          (∃ front, stamp.text = front ++ "Z") ∧ stamp.fraction.length ∈ [0, 3, 6, 9]) ∧
        ∀ (view : View) (query : Query) (table : Option Widget) (fields : List SelectedField)
          (sort : List SortEntry) (started : Started) (payload : Payload),
          view.search.queries = [query] → query.timeRange = .absolute start stop →
            view.startExport table fields sort = .ok started →
              started.request = .allMessages payload →
                ∃ members,
                  started.request.toJson =
                    .object [("kind", .text "all_messages"), ("payload", .object members)] ∧
                  members.lookup "timerange" =
                    some (Wire.absoluteTree first'.text last'.text)) ∧
      (∀ stamp other : Timestamp, stamp.Readable → other.Readable →
        stamp.text = other.text → stamp.count = other.count) ∧
      dayNumber ⟨1970, 1, 1⟩ = 0 ∧
      ∀ date : Date, date.Exists →
        date.next.Exists ∧ dayNumber date.next = dayNumber date + 1 := by
  refine ⟨?_, fun _ _ => Timestamp.count_eq_of_text_eq, by decide,
    fun date hdate => ⟨hdate.next, dayNumber_next hdate⟩⟩
  intro first last hfirst hlast
  obtain ⟨start, hstartRead, hstart, hstartCount⟩ := Timestamp.ofString_text hfirst
  obtain ⟨stop, hstopRead, hstop, hstopCount⟩ := Timestamp.ofString_text hlast
  obtain ⟨first', hfirstText, hfirstCount, hfirstYear, hfirstZone, hfirstLength⟩ :=
    Timestamp.exists_text_eq_toString hstart
  obtain ⟨last', hlastText, hlastCount, hlastYear, hlastZone, hlastLength⟩ :=
    Timestamp.exists_text_eq_toString hstop
  have htree : (TimeRange.absolute start stop).toJson =
      Wire.absoluteTree first'.text last'.text := by
    rw [hfirstText, hlastText]
    rfl
  refine ⟨start, stop, first', last', ?_, ?_, htree, hfirstCount.trans hstartCount,
    hlastCount.trans hstopCount, ?_, ?_⟩
  · obtain ⟨s, htext, hs⟩ := Wire.exists_isAbsolute first.text last.text
    rw [← htext]
    exact Wire.decodeText_absolute hs hstartRead hstopRead
  · intro other other' hother hother' hcount hcount' s hs
    exact Wire.decodeText_absolute hs
      (Timestamp.ofString_text_of_count hother hstart (hcount.trans hstartCount.symm))
      (Timestamp.ofString_text_of_count hother' hstop (hcount'.trans hstopCount.symm))
  · refine List.forall_mem_cons.mpr ⟨?_, List.forall_mem_singleton.mpr ?_⟩
    · exact ⟨hfirstYear, hfirstZone, Timestamp.text_of_universal hfirstZone, hfirstLength⟩
    · exact ⟨hlastYear, hlastZone, Timestamp.text_of_universal hlastZone, hlastLength⟩
  · intro view query table fields sort started payload hqueries hrange hstarted hrequest
    rw [← htree, ← hrange]
    exact Wire.lookup_timerange hqueries hstarted hrequest

end MessageExport
