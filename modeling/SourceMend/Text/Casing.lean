import SourceMend.Text.CharSet

/-!
Letters that differ only in case, by simple case folding: one character folds to one character.
Most letters come in pairs at a fixed distance, so a run says where the pairs start, how many
there are, how far apart their first letters stand and how far the second letter is from the
first. A few letters have more than one partner.
-/
namespace SourceMend.Casing

structure Run where
  first : Nat
  count : Nat
  stride : Nat
  distance : Nat

private def r (first count stride distance : Nat) : Run := ⟨first, count, stride, distance⟩

def runs : List Run :=
  [r 65 10 1 32, r 76 7 1 32, r 84 7 1 32, r 192 5 1 32, r 198 17 1 32, r 216 7 1 32,
    r 223 1 1 7615, r 255 1 1 121, r 256 24 2 1, r 306 3 2 1, r 313 8 2 1, r 330 23 2 1,
    r 377 3 2 1, r 384 1 1 195, r 385 1 1 210, r 386 2 2 1, r 390 1 1 206, r 391 1 1 1,
    r 393 2 1 205, r 395 1 1 1, r 398 1 1 79, r 399 1 1 202, r 400 1 1 203, r 401 1 1 1,
    r 403 1 1 205, r 404 1 1 207, r 405 1 1 97, r 406 1 1 211, r 407 1 1 209, r 408 1 1 1,
    r 410 1 1 163, r 411 1 1 42561, r 412 1 1 211, r 413 1 1 213, r 414 1 1 130, r 415 1 1 214,
    r 416 3 2 1, r 422 1 1 218, r 423 1 1 1, r 425 1 1 218, r 428 1 1 1, r 430 1 1 218,
    r 431 1 1 1, r 433 2 1 217, r 435 2 2 1, r 439 1 1 219, r 440 1 1 1, r 444 1 1 1,
    r 447 1 1 56, r 461 8 2 1, r 478 9 2 1, r 500 1 1 1, r 504 20 2 1, r 546 9 2 1,
    r 570 1 1 10795, r 571 1 1 1, r 574 1 1 10792, r 575 2 1 10815, r 577 1 1 1, r 580 1 1 69,
    r 581 1 1 71, r 582 5 2 1, r 592 1 1 10783, r 593 1 1 10780, r 594 1 1 10782, r 604 1 1 42319,
    r 609 1 1 42315, r 612 1 1 42343, r 613 1 1 42280, r 614 1 1 42308, r 618 1 1 42308,
    r 619 1 1 10743, r 620 1 1 42305, r 625 1 1 10749, r 637 1 1 10727, r 642 1 1 42307,
    r 647 1 1 42282, r 669 1 1 42261, r 670 1 1 42258, r 880 2 2 1, r 886 1 1 1, r 891 3 1 130,
    r 895 1 1 116, r 902 1 1 38, r 904 3 1 37, r 908 1 1 64, r 910 2 1 63, r 912 1 1 7235,
    r 913 2 2 32, r 916 2 2 32, r 919 1 1 32, r 923 2 2 32, r 926 2 1 32, r 932 2 1 32,
    r 935 2 1 32, r 938 2 1 32, r 944 1 1 7219, r 975 1 1 8, r 984 12 2 1, r 1010 1 1 7,
    r 1015 1 1 1, r 1018 1 1 1, r 1024 16 1 80, r 1040 2 1 32, r 1043 2 2 32, r 1046 8 1 32,
    r 1055 2 1 32, r 1059 7 1 32, r 1067 5 1 32, r 1120 1 1 1, r 1124 15 2 1, r 1162 27 2 1,
    r 1216 1 1 15, r 1217 7 2 1, r 1232 48 2 1, r 1329 38 1 48, r 4256 38 1 7264, r 4295 1 1 7264,
    r 4301 1 1 7264, r 4304 43 1 3008, r 4349 3 1 3008, r 5024 80 1 38864, r 5104 6 1 8,
    r 7305 1 1 1, r 7545 1 1 35332, r 7549 1 1 3814, r 7566 1 1 35384, r 7680 48 2 1,
    r 7778 26 2 1, r 7840 48 2 1, r 7936 8 1 8, r 7952 6 1 8, r 7968 8 1 8, r 7984 8 1 8,
    r 8000 6 1 8, r 8017 4 2 8, r 8032 8 1 8, r 8048 2 1 74, r 8050 4 1 86, r 8054 2 1 100,
    r 8056 2 1 128, r 8058 2 1 112, r 8060 2 1 126, r 8064 8 1 8, r 8080 8 1 8, r 8096 8 1 8,
    r 8112 2 1 8, r 8115 1 1 9, r 8131 1 1 9, r 8144 2 1 8, r 8160 2 1 8, r 8165 1 1 7,
    r 8179 1 1 9, r 8498 1 1 28, r 8544 16 1 16, r 8579 1 1 1, r 9398 26 1 26, r 11264 48 1 48,
    r 11360 1 1 1, r 11367 3 2 1, r 11378 1 1 1, r 11381 1 1 1, r 11392 50 2 1, r 11499 2 2 1,
    r 11506 1 1 1, r 42560 5 2 1, r 42572 17 2 1, r 42624 14 2 1, r 42786 7 2 1, r 42802 31 2 1,
    r 42873 2 2 1, r 42878 5 2 1, r 42891 1 1 1, r 42896 2 2 1, r 42900 1 1 48, r 42902 10 2 1,
    r 42931 1 1 928, r 42932 8 2 1, r 42951 2 2 1, r 42956 1 1 1, r 42960 1 1 1,
    r 42966 3 2 1, r 42997 1 1 1, r 64261 1 1 1,
    r 65313 26 1 32, r 66560 40 1 40, r 66736 36 1 40, r 66928 11 1 39, r 66940 15 1 39,
    r 66956 7 1 39, r 66964 2 1 39, r 68736 51 1 64, r 68944 22 1 32, r 71840 32 1 32,
    r 93760 32 1 32, r 125184 34 1 34]

def families : List (List Nat) :=
  [[75, 107, 8490], [83, 115, 383], [181, 924, 956], [197, 229, 8491], [452, 453, 454],
    [455, 456, 457], [458, 459, 460], [497, 498, 499], [837, 921, 953, 8126], [914, 946, 976],
    [917, 949, 1013], [920, 952, 977, 1012], [922, 954, 1008], [928, 960, 982], [929, 961, 1009],
    [931, 962, 963], [934, 966, 981], [937, 969, 8486], [1042, 1074, 7296], [1044, 1076, 7297],
    [1054, 1086, 7298], [1057, 1089, 7299], [1058, 1090, 7300, 7301], [1066, 1098, 7302],
    [1122, 1123, 7303], [7304, 42570, 42571], [7776, 7777, 7835]]

def Run.pairs (run : Run) : List (List Nat) :=
  (List.range run.count).map fun i =>
    [run.first + i * run.stride, run.first + i * run.stride + run.distance]

/-- All sets of letters that differ only in case. -/
def classes : List (List Nat) := families ++ runs.flatMap Run.pairs

end SourceMend.Casing

namespace SourceMend.CharSet

/-- Adds every letter that differs only in case from a member. -/
def foldCase (s : CharSet) : CharSet :=
  let partners := (Casing.classes.filter (·.any s.containsCode)).flatMap (·.map fun n => (n, n))
  ofRanges (s ++ partners)

/-- Adds every ASCII letter that differs only in case from a member. -/
def foldAsciiCase (s : CharSet) : CharSet :=
  let lower := (s.inter [(65, 90)]).map fun (a, b) => (a + 32, b + 32)
  let upper := (s.inter [(97, 122)]).map fun (a, b) => (a - 32, b - 32)
  ofRanges (s ++ lower ++ upper)

end SourceMend.CharSet
