/-!
# Characters written as themselves

Quoted text shows a character verbatim when it is a graphic character that stands alone: an assigned
code point that is neither a control, format, private-use or separator character (the space apart),
nor one that is ignored by default, nor a mark that extends the character before it. The characters
are those of Unicode 17.
-/

namespace Wordstream.Text

/-- The code points in ascending order, as the lengths of runs: how many to pass over, and how many
behind them hold graphic characters which stand alone. -/
def graphicRuns : List (Nat × Nat) := [
  (32, 95), (34, 12), (1, 594), (112, 8), (2, 6), (4, 7), (1, 1), (1, 20), (1, 224), (7, 166),
  (1, 38), (2, 50), (2, 3), (46, 1), (1, 1), (2, 1), (2, 1), (9, 27), (4, 6), (17, 10), (11, 1),
  (1, 46), (21, 16), (1, 101), (8, 1), (6, 2), (2, 1), (4, 32), (2, 1), (1, 30), (29, 89),
  (11, 1), (14, 43), (9, 7), (3, 24), (4, 1), (9, 1), (3, 1), (7, 15), (1, 25), (5, 1), (1, 11),
  (5, 32), (16, 42), (57, 55), (1, 1), (1, 4), (8, 4), (1, 3), (7, 10), (2, 29), (1, 2), (1, 8),
  (2, 2), (2, 22), (1, 7), (1, 1), (3, 4), (3, 1), (1, 2), (6, 2), (2, 2), (1, 1), (13, 2),
  (1, 3), (4, 24), (5, 1), (1, 6), (4, 2), (2, 22), (1, 7), (1, 2), (1, 2), (1, 2), (4, 3),
  (24, 4), (1, 1), (7, 10), (2, 3), (1, 1), (12, 1), (1, 9), (1, 3), (1, 22), (1, 7), (1, 2),
  (1, 5), (3, 4), (8, 1), (1, 2), (3, 1), (15, 2), (4, 12), (7, 1), (8, 2), (1, 8), (2, 2),
  (2, 22), (1, 7), (1, 2), (1, 5), (3, 1), (2, 1), (6, 2), (2, 2), (15, 2), (1, 3), (4, 18),
  (11, 1), (1, 6), (3, 3), (1, 4), (3, 2), (1, 1), (1, 2), (3, 2), (3, 3), (3, 12), (5, 1),
  (1, 2), (3, 3), (1, 3), (3, 1), (21, 21), (6, 3), (1, 8), (1, 3), (1, 23), (1, 16), (3, 1),
  (3, 4), (19, 3), (1, 2), (2, 2), (4, 10), (7, 10), (1, 11), (1, 3), (1, 23), (1, 10), (1, 5),
  (3, 2), (2, 1), (1, 2), (23, 3), (1, 2), (4, 10), (1, 3), (14, 11), (1, 3), (1, 41), (2, 1),
  (1, 2), (5, 3), (1, 3), (1, 2), (4, 3), (1, 10), (4, 26), (2, 2), (1, 18), (3, 24), (1, 9),
  (1, 1), (2, 7), (9, 2), (6, 7), (7, 10), (2, 3), (12, 48), (1, 2), (11, 8), (8, 13), (37, 2),
  (1, 1), (1, 5), (1, 24), (1, 1), (1, 10), (1, 2), (9, 1), (2, 5), (1, 1), (9, 10), (2, 4),
  (32, 24), (2, 27), (1, 1), (1, 1), (1, 14), (1, 36), (18, 1), (5, 1), (2, 5), (49, 8), (1, 6),
  (1, 13), (37, 45), (4, 1), (6, 1), (2, 2), (2, 25), (2, 4), (3, 16), (4, 13), (1, 2), (2, 6),
  (1, 15), (1, 40), (1, 1), (5, 1), (2, 143), (2, 232), (1, 4), (2, 7), (1, 1), (1, 4), (2, 41),
  (1, 4), (2, 33), (1, 4), (2, 7), (1, 1), (1, 4), (2, 15), (1, 57), (1, 4), (2, 67), (5, 29),
  (3, 26), (6, 86), (2, 6), (2, 640), (1, 28), (3, 89), (7, 18), (13, 19), (3, 2), (9, 18),
  (14, 13), (1, 3), (15, 52), (2, 1), (7, 8), (1, 2), (11, 9), (3, 10), (6, 10), (6, 11), (5, 10),
  (6, 89), (7, 5), (2, 34), (1, 1), (5, 70), (10, 31), (4, 4), (2, 3), (4, 2), (1, 6), (7, 1),
  (3, 42), (2, 5), (11, 44), (4, 26), (6, 11), (3, 57), (2, 2), (3, 56), (1, 1), (9, 1), (1, 2),
  (8, 6), (13, 10), (6, 10), (6, 14), (86, 48), (10, 4), (3, 8), (1, 29), (9, 12), (2, 32),
  (4, 2), (6, 56), (1, 1), (2, 3), (1, 1), (13, 48), (8, 2), (5, 15), (3, 62), (5, 43), (2, 11),
  (11, 1), (13, 1), (7, 4), (1, 6), (1, 3), (2, 1), (5, 192), (64, 278), (2, 6), (2, 38), (2, 6),
  (2, 8), (1, 1), (1, 1), (1, 1), (1, 31), (2, 53), (1, 15), (1, 14), (2, 6), (1, 19), (2, 3),
  (1, 9), (17, 24), (8, 47), (17, 2), (2, 27), (1, 13), (3, 34), (62, 140), (4, 666), (22, 11),
  (21, 1812), (2, 377), (3, 2), (5, 45), (1, 1), (5, 1), (2, 56), (7, 2), (15, 23), (9, 7),
  (1, 7), (1, 7), (1, 7), (1, 7), (1, 7), (1, 7), (1, 7), (33, 94), (34, 26), (1, 89), (12, 214),
  (26, 16), (1, 41), (6, 16), (1, 86), (4, 101), (5, 43), (1, 51), (1, 42), (1, 86), (9, 48),
  (1, 29293), (3, 55), (9, 348), (20, 47), (4, 1), (10, 32), (2, 80), (2, 6), (8, 221), (20, 17),
  (1, 3), (1, 4), (1, 25), (2, 5), (4, 10), (6, 56), (8, 68), (10, 12), (24, 13), (1, 38),
  (8, 25), (11, 1), (12, 30), (6, 48), (1, 2), (4, 2), (2, 2), (1, 13), (1, 11), (4, 7), (1, 25),
  (1, 41), (6, 2), (2, 2), (11, 3), (1, 8), (1, 1), (2, 10), (2, 32), (1, 51), (1, 1), (3, 2),
  (2, 5), (2, 1), (1, 1), (24, 17), (2, 8), (11, 6), (2, 6), (2, 6), (9, 7), (1, 7), (1, 60),
  (4, 117), (1, 2), (1, 4), (3, 10), (6, 11172), (12, 23), (4, 49), (8452, 366), (2, 106),
  (38, 7), (12, 5), (5, 1), (1, 24), (1, 5), (1, 1), (1, 2), (1, 2), (1, 650), (32, 16), (16, 10),
  (22, 35), (1, 19), (1, 4), (4, 5), (1, 135), (4, 159), (1, 30), (3, 6), (2, 6), (2, 6), (2, 3),
  (3, 7), (1, 7), (13, 2), (2, 12), (1, 26), (1, 19), (1, 2), (1, 15), (2, 14), (34, 123), (5, 3),
  (4, 45), (3, 88), (1, 13), (3, 1), (47, 45), (131, 29), (3, 49), (16, 27), (4, 36), (9, 30),
  (5, 38), (10, 30), (1, 37), (4, 14), (42, 158), (2, 10), (6, 36), (4, 36), (4, 40), (8, 52),
  (11, 12), (1, 15), (1, 7), (1, 2), (1, 11), (1, 15), (1, 7), (1, 2), (3, 52), (12, 311),
  (9, 22), (10, 8), (24, 6), (1, 42), (1, 9), (69, 6), (2, 1), (1, 44), (1, 2), (3, 1), (2, 23),
  (1, 72), (8, 9), (48, 19), (1, 2), (5, 33), (3, 27), (5, 27), (38, 56), (4, 20), (2, 47),
  (15, 4), (1, 3), (1, 29), (10, 9), (7, 9), (7, 64), (32, 37), (6, 12), (9, 54), (3, 29),
  (2, 27), (5, 26), (7, 4), (12, 7), (80, 73), (55, 51), (13, 51), (7, 42), (12, 10), (6, 38),
  (8, 24), (8, 2), (208, 31), (1, 42), (3, 1), (2, 2), (16, 6), (8, 9), (39, 40), (8, 22),
  (11, 9), (22, 18), (4, 4), (38, 28), (20, 23), (9, 1), (1, 54), (15, 7), (4, 30), (1, 2),
  (2, 1), (12, 49), (4, 2), (2, 2), (1, 4), (14, 25), (7, 10), (9, 36), (5, 1), (9, 18), (8, 35),
  (1, 3), (11, 52), (9, 1), (1, 8), (4, 2), (1, 16), (1, 20), (11, 18), (1, 28), (3, 2), (4, 6),
  (1, 2), (63, 7), (1, 1), (1, 4), (1, 15), (1, 11), (6, 47), (1, 3), (13, 10), (8, 2), (1, 8),
  (2, 2), (2, 22), (1, 7), (1, 2), (1, 5), (3, 1), (1, 1), (1, 4), (2, 2), (2, 2), (3, 1),
  (12, 7), (28, 10), (1, 1), (2, 1), (1, 38), (1, 1), (1, 2), (15, 1), (1, 2), (3, 1), (1, 3),
  (1, 2), (39, 56), (8, 2), (3, 1), (1, 21), (1, 1), (1, 3), (30, 48), (1, 2), (6, 1), (1, 2),
  (1, 1), (2, 1), (2, 4), (8, 10), (166, 47), (1, 2), (6, 4), (2, 1), (2, 27), (36, 51), (8, 2),
  (1, 1), (2, 4), (11, 10), (6, 13), (19, 43), (1, 1), (1, 2), (8, 2), (6, 10), (6, 20), (28, 27),
  (3, 1), (1, 2), (4, 1), (9, 23), (185, 47), (9, 1), (2, 1), (100, 83), (12, 8), (2, 1), (2, 8),
  (1, 2), (1, 24), (1, 5), (1, 2), (6, 4), (1, 3), (9, 10), (70, 8), (2, 42), (8, 4), (1, 4),
  (27, 1), (10, 40), (6, 2), (4, 8), (9, 1), (6, 2), (3, 46), (13, 1), (2, 9), (13, 73), (7, 10),
  (87, 1), (3, 1), (1, 1), (88, 34), (14, 10), (6, 9), (1, 38), (14, 1), (1, 6), (10, 29),
  (3, 32), (25, 1), (7, 1), (2, 1), (75, 7), (1, 2), (1, 38), (21, 1), (9, 10), (6, 6), (1, 2),
  (1, 37), (4, 2), (1, 1), (1, 1), (7, 10), (6, 44), (4, 10), (246, 19), (2, 4), (9, 15), (1, 36),
  (8, 2), (3, 23), (86, 1), (15, 50), (13, 923), (102, 111), (1, 5), (11, 196), (2636, 99),
  (13, 1072), (17, 6), (25, 3995), (5, 583), (6841, 30), (12, 3), (3, 10), (1734, 569), (7, 31),
  (1, 10), (4, 81), (1, 10), (6, 30), (7, 1), (10, 48), (7, 15), (10, 10), (1, 7), (1, 21),
  (5, 19), (432, 58), (198, 91), (5, 25), (2, 25), (44, 75), (5, 56), (11, 13), (64, 4), (14, 5),
  (9, 7382), (41, 32), (97, 115), (8701, 4), (1, 7), (1, 2), (1, 291), (15, 1), (29, 3), (2, 1),
  (14, 4), (8, 396), (2308, 107), (5, 13), (3, 9), (7, 10), (2, 1), (2, 1), (3936, 253), (3, 436),
  (6, 23), (15, 17), (95, 116), (60, 246), (10, 39), (2, 60), (5, 3), (22, 2), (7, 30), (4, 61),
  (21, 66), (3, 1), (122, 20), (12, 20), (12, 87), (9, 25), (135, 85), (1, 71), (1, 2), (2, 1),
  (2, 2), (2, 4), (1, 12), (1, 1), (1, 7), (1, 65), (1, 4), (2, 8), (1, 7), (1, 28), (1, 4),
  (1, 5), (1, 1), (3, 7), (1, 340), (2, 292), (2, 562), (55, 4), (50, 8), (1, 14), (1, 7),
  (1140, 31), (6, 6), (261, 62), (146, 45), (10, 7), (2, 10), (4, 2), (320, 30), (18, 44),
  (4, 10), (5, 1), (464, 28), (4, 10), (214, 30), (2, 11), (4, 1), (192, 31), (1, 3), (1, 2),
  (1, 7), (2, 5), (9, 2), (224, 7), (1, 4), (1, 2), (1, 15), (1, 197), (2, 9), (48, 68), (7, 1),
  (4, 10), (4, 2), (785, 68), (76, 61), (194, 4), (1, 27), (1, 2), (1, 1), (2, 1), (1, 10),
  (1, 4), (1, 1), (1, 1), (6, 1), (4, 1), (1, 1), (1, 1), (1, 3), (1, 2), (1, 1), (2, 1), (1, 1),
  (1, 1), (1, 1), (1, 1), (1, 2), (1, 1), (2, 4), (1, 7), (1, 4), (1, 4), (1, 1), (1, 10),
  (1, 17), (5, 3), (1, 5), (1, 17), (52, 2), (270, 44), (4, 100), (12, 15), (2, 15), (1, 15),
  (1, 37), (10, 174), (56, 29), (13, 44), (4, 9), (7, 2), (14, 6), (154, 985), (3, 17), (3, 13),
  (3, 218), (6, 12), (4, 1), (15, 12), (4, 56), (8, 10), (6, 40), (8, 30), (2, 12), (4, 2),
  (14, 9), (39, 344), (8, 14), (2, 13), (3, 11), (3, 57), (1, 1), (4, 16), (2, 12), (4, 10),
  (7, 147), (1, 103), (1029, 42720), (32, 4382), (2, 5774), (2, 7473), (15, 622), (2466, 542),
  (1506, 4939), (5, 8490)]

/-- A number lies in a run when it is behind what is passed over. -/
def liesInRun : List (Nat × Nat) → Nat → Bool
  | [], _ => false
  | (gap, run) :: rest, n =>
    if n < gap then false else if n < gap + run then true else liesInRun rest (n - (gap + run))

/-- A character is graphic when its code point lies in a run of graphic characters. -/
def isGraphic (c : Char) : Bool := liesInRun graphicRuns c.toNat

/-- No run is empty, and no two of them touch. -/
example : graphicRuns.all fun (gap, run) => 0 < gap && 0 < run := by decide +kernel

/-- The runs hold this many code points. -/
example : (graphicRuns.map Prod.snd).sum = 157476 := by decide +kernel

end Wordstream.Text
