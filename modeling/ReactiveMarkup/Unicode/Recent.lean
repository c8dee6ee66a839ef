import ReactiveMarkup.Unicode.Ranges

/-!
# Recent characters

The letters, marks and digits that version 17.0 of Unicode added. Names and the mappings of case
follow that version; the words of a pattern follow version 16.0 and do not hold them.
-/

namespace ReactiveMarkup.Unicode

/-- Code points of letters, marks and digits added by Unicode 17.0. -/
def recentRanges : Ranges := [
  (2191, 2191), (3164, 3164), (3292, 3292), (6863, 6877), (6880, 6891), (42958, 42959),
   (42962, 42962), (42964, 42964), (42993, 42993), (67904, 67929), (69317, 69319),
   (69370, 69371), (72544, 72551), (73136, 73179), (73184, 73193), (93856, 93880),
   (93883, 93907), (94194, 94198), (100344, 100351), (101641, 101662), (101760, 101874),
   (124608, 124638), (124640, 124661), (124670, 124671), (177978, 177983), (183970, 183981),
   (205744, 210041)]

end ReactiveMarkup.Unicode
