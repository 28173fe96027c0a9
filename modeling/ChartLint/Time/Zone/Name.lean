import ChartLint.Time.Zone.Basic

/-!
# Zones by name

Some zones with the changes of their clocks: seconds since the change before, and minutes ahead of
the zone's base from then on. They make up a small database, in which the place of the check keeps
universal time. Nothing that is proved about documents depends on it.
-/

namespace ChartLint.Zone

def berlin : Zone :=
  .ofHistory "Europe/Berlin"
    { initial := 53, base := 60, origin := -2422054408
      changes :=
        [(0, 0), (728348008, 60), (13222800, 0), (17028000, 60), (13305600, 0), (18144000, 60),
         (13305600, 0), (679795200, 60), (81648000, 0), (12700800, 60), (16329600, 0),
         (15724800, 60), (15724800, 0), (15724800, 60), (4489200, 120), (10627200, 60),
         (4755600, 0), (12700800, 60), (15206400, 0), (15642000, 60), (3020400, 120),
         (4230000, 60), (8470800, 0), (16934400, 60), (14515200, 0), (16329600, 60), (15120000, 0),
         (962841600, 60), (15120000, 0), (15724800, 60), (15724800, 0), (15724800, 60),
         (15724800, 0), (15724800, 60), (15724800, 0), (15724800, 60), (16329600, 0),
         (15724800, 60), (15724800, 0), (15724800, 60), (15724800, 0), (15724800, 60),
         (15724800, 0), (15724800, 60), (15724800, 0), (15724800, 60), (15724800, 0),
         (15724800, 60), (16329600, 0), (15724800, 60), (15724800, 0), (15724800, 60),
         (15724800, 0), (15724800, 60), (15724800, 0), (15724800, 60), (15724800, 0),
         (15724800, 60), (15724800, 0), (16329600, 60), (18144000, 0), (13305600, 60),
         (18144000, 0), (13305600, 60), (18144000, 0), (13305600, 60), (18748800, 0),
         (12700800, 60), (18748800, 0), (12700800, 60), (18748800, 0), (13305600, 60),
         (18144000, 0), (13305600, 60), (18144000, 0), (13305600, 60), (18748800, 0),
         (12700800, 60), (18748800, 0), (12700800, 60), (18748800, 0), (12700800, 60),
         (18748800, 0), (13305600, 60), (18144000, 0), (13305600, 60), (18144000, 0),
         (13305600, 60), (18748800, 0), (12700800, 60), (18748800, 0), (12700800, 60),
         (18748800, 0), (13305600, 60), (18144000, 0), (13305600, 60), (18144000, 0),
         (13305600, 60), (18144000, 0), (13305600, 60), (18748800, 0), (12700800, 60),
         (18748800, 0), (12700800, 60), (18748800, 0), (13305600, 60), (18144000, 0),
         (13305600, 60), (18144000, 0), (13305600, 60), (18748800, 0), (12700800, 60),
         (18748800, 0), (12700800, 60), (18748800, 0), (13305600, 60), (18144000, 0),
         (13305600, 60), (18144000, 0), (13305600, 60), (18144000, 0), (13305600, 60),
         (18748800, 0), (12700800, 60), (18748800, 0), (12700800, 60), (18748800, 0),
         (13305600, 60), (18144000, 0), (13305600, 60), (18144000, 0), (13305600, 60),
         (18748800, 0), (12700800, 60), (18748800, 0), (12700800, 60), (18748800, 0),
         (12700800, 60), (18748800, 0), (13305600, 60), (18144000, 0), (13305600, 60),
         (18144000, 0), (13305600, 60), (18748800, 0), (12700800, 60), (18748800, 0),
         (12700800, 60), (18748800, 0), (13305600, 60), (18144000, 0), (13305600, 60),
         (18144000, 0), (13305600, 60), (18144000, 0), (13305600, 60), (18748800, 0),
         (12700800, 60), (18748800, 0), (12700800, 60), (18748800, 0), (13305600, 60),
         (18144000, 0), (13305600, 60), (18144000, 0), (13305600, 60), (18748800, 0),
         (12700800, 60), (18748800, 0), (12700800, 60), (18748800, 0), (13305600, 60),
         (18144000, 0), (13305600, 60), (18144000, 0), (13305600, 60), (18144000, 0),
         (13305600, 60), (18748800, 0), (12700800, 60), (18748800, 0), (12700800, 60),
         (18748800, 0), (13305600, 60), (18144000, 0), (13305600, 60), (18144000, 0),
         (13305600, 60), (18748800, 0), (12700800, 60), (18748800, 0), (12700800, 60),
         (18748800, 0), (12700800, 60), (18748800, 0), (13305600, 60), (18144000, 0),
         (13305600, 60), (18144000, 0), (13305600, 60), (18748800, 0), (12700800, 60),
         (18748800, 0), (12700800, 60), (18748800, 0), (13305600, 60), (18144000, 0),
         (13305600, 60), (18144000, 0), (13305600, 60), (18144000, 0), (13305600, 60),
         (18748800, 0), (12700800, 60), (18748800, 0), (12700800, 60), (18748800, 0),
         (13305600, 60), (18144000, 0), (13305600, 60), (18144000, 0), (13305600, 60),
         (18748800, 0), (12700800, 60), (18748800, 0), (12700800, 60), (18748800, 0),
         (13305600, 60), (18144000, 0), (13305600, 60), (18144000, 0), (13305600, 60),
         (18144000, 0), (13305600, 60), (18748800, 0), (12700800, 60), (18748800, 0),
         (12700800, 60), (18748800, 0), (13305600, 60), (18144000, 0), (13305600, 60),
         (18144000, 0), (13305600, 60), (18748800, 0), (12700800, 60), (18748800, 0),
         (12700800, 60), (18748800, 0), (12700800, 60), (18748800, 0), (13305600, 60),
         (18144000, 0), (13305600, 60), (18144000, 0), (13305600, 60), (18748800, 0),
         (12700800, 60), (18748800, 0), (12700800, 60), (18748800, 0), (13305600, 60),
         (18144000, 0), (13305600, 60), (18144000, 0), (13305600, 60), (18144000, 0)] }

def newYork : Zone :=
  .ofHistory "America/New_York"
    { initial := -296, base := -300, origin := -2717650800
      changes :=
        [(0, 0), (1084370400, 60), (18140400, 0), (13309200, 60), (18140400, 0), (13309200, 60),
         (18745200, 0), (15123600, 60), (13302000, 0), (18752400, 60), (12697200, 0),
         (18752400, 60), (13302000, 0), (18147600, 60), (13302000, 0), (18147600, 60),
         (13302000, 0), (18147600, 60), (13302000, 0), (18147600, 60), (13302000, 0),
         (18752400, 60), (13302000, 0), (18147600, 60), (13302000, 0), (18147600, 60),
         (13302000, 0), (18147600, 60), (13302000, 0), (18147600, 60), (13302000, 0),
         (18752400, 60), (12697200, 0), (18752400, 60), (13302000, 0), (18147600, 60),
         (13302000, 0), (18147600, 60), (13302000, 0), (18147600, 60), (13302000, 0),
         (18147600, 60), (13302000, 0), (18752400, 60), (12697200, 0), (18752400, 60),
         (13302000, 0), (18147600, 60), (13302000, 0), (11581200, 60), (114822000, 0),
         (18147600, 60), (13302000, 0), (18147600, 60), (13302000, 0), (18147600, 60),
         (13302000, 0), (18147600, 60), (13302000, 0), (18752400, 60), (12697200, 0),
         (18752400, 60), (13302000, 0), (18147600, 60), (13302000, 0), (18147600, 60),
         (13302000, 0), (18147600, 60), (13302000, 0), (18147600, 60), (16326000, 0),
         (15728400, 60), (15721200, 0), (15728400, 60), (15721200, 0), (15728400, 60),
         (15721200, 0), (15728400, 60), (15721200, 0), (15728400, 60), (16326000, 0),
         (15728400, 60), (15721200, 0), (15728400, 60), (15721200, 0), (15728400, 60),
         (15721200, 0), (15728400, 60), (15721200, 0), (15728400, 60), (16326000, 0),
         (15123600, 60), (16326000, 0), (15728400, 60), (15721200, 0), (15728400, 60),
         (15721200, 0), (15728400, 60), (15721200, 0), (15728400, 60), (15721200, 0),
         (15728400, 60), (16326000, 0), (15728400, 60), (15721200, 0), (15728400, 60),
         (15721200, 0), (6051600, 60), (25398000, 0), (10285200, 60), (21164400, 0),
         (15728400, 60), (16326000, 0), (15123600, 60), (16326000, 0), (15728400, 60),
         (15721200, 0), (15728400, 60), (15721200, 0), (15728400, 60), (15721200, 0),
         (15728400, 60), (15721200, 0), (15728400, 60), (16326000, 0), (15123600, 60),
         (16326000, 0), (15728400, 60), (15721200, 0), (15728400, 60), (15721200, 0),
         (15728400, 60), (15721200, 0), (13914000, 60), (17535600, 0), (13914000, 60),
         (18140400, 0), (13309200, 60), (18140400, 0), (13309200, 60), (18140400, 0),
         (13914000, 60), (17535600, 0), (13914000, 60), (17535600, 0), (13914000, 60),
         (18140400, 0), (13309200, 60), (18140400, 0), (13309200, 60), (18140400, 0),
         (13914000, 60), (17535600, 0), (13914000, 60), (17535600, 0), (13914000, 60),
         (17535600, 0), (13914000, 60), (18140400, 0), (13309200, 60), (18140400, 0),
         (13309200, 60), (18140400, 0), (13914000, 60), (17535600, 0), (13914000, 60),
         (17535600, 0), (13914000, 60), (18140400, 0), (13309200, 60), (18140400, 0),
         (13309200, 60), (18140400, 0), (11494800, 60), (20559600, 0), (10890000, 60),
         (20559600, 0), (10890000, 60), (20559600, 0), (11494800, 60), (20559600, 0),
         (10890000, 60), (20559600, 0), (10890000, 60), (20559600, 0), (10890000, 60),
         (20559600, 0), (10890000, 60), (20559600, 0), (10890000, 60), (20559600, 0),
         (11494800, 60), (20559600, 0), (10890000, 60), (20559600, 0), (10890000, 60),
         (20559600, 0), (10890000, 60), (20559600, 0), (10890000, 60), (20559600, 0),
         (11494800, 60), (20559600, 0), (10890000, 60), (20559600, 0), (10890000, 60),
         (20559600, 0), (10890000, 60), (20559600, 0), (10890000, 60), (20559600, 0),
         (10890000, 60), (20559600, 0), (11494800, 60), (20559600, 0), (10890000, 60),
         (20559600, 0), (10890000, 60), (20559600, 0), (10890000, 60), (20559600, 0),
         (10890000, 60), (20559600, 0), (11494800, 60), (20559600, 0), (10890000, 60),
         (20559600, 0), (10890000, 60), (20559600, 0), (10890000, 60), (20559600, 0),
         (10890000, 60), (20559600, 0), (10890000, 60), (20559600, 0), (11494800, 60),
         (20559600, 0), (10890000, 60), (20559600, 0), (10890000, 60), (20559600, 0),
         (10890000, 60), (20559600, 0), (10890000, 60), (20559600, 0), (10890000, 60),
         (20559600, 0), (11494800, 60), (20559600, 0), (10890000, 60), (20559600, 0),
         (10890000, 60), (20559600, 0), (10890000, 60), (20559600, 0), (10890000, 60),
         (20559600, 0), (11494800, 60), (20559600, 0), (10890000, 60), (20559600, 0),
         (10890000, 60), (20559600, 0), (10890000, 60), (20559600, 0), (10890000, 60),
         (20559600, 0), (10890000, 60), (20559600, 0), (11494800, 60), (20559600, 0),
         (10890000, 60), (20559600, 0), (10890000, 60), (20559600, 0), (10890000, 60),
         (20559600, 0), (10890000, 60), (20559600, 0), (11494800, 60), (20559600, 0),
         (10890000, 60), (20559600, 0), (10890000, 60), (20559600, 0), (10890000, 60),
         (20559600, 0), (10890000, 60), (20559600, 0), (10890000, 60), (20559600, 0),
         (11494800, 60), (20559600, 0), (10890000, 60), (20559600, 0), (10890000, 60),
         (20559600, 0), (10890000, 60), (20559600, 0), (10890000, 60), (20559600, 0),
         (10890000, 60), (20559600, 0), (11494800, 60), (20559600, 0), (10890000, 60),
         (20559600, 0), (10890000, 60), (20559600, 0), (10890000, 60), (20559600, 0),
         (10890000, 60), (20559600, 0), (11494800, 60), (20559600, 0), (10890000, 60),
         (20559600, 0), (10890000, 60), (20559600, 0), (10890000, 60), (20559600, 0),
         (10890000, 60), (20559600, 0), (10890000, 60), (20559600, 0), (11494800, 60),
         (20559600, 0), (10890000, 60), (20559600, 0), (10890000, 60), (20559600, 0),
         (10890000, 60), (20559600, 0), (10890000, 60), (20559600, 0), (11494800, 60),
         (20559600, 0), (10890000, 60), (20559600, 0), (10890000, 60), (20559600, 0),
         (10890000, 60), (20559600, 0), (10890000, 60), (20559600, 0), (10890000, 60),
         (20559600, 0), (11494800, 60), (20559600, 0), (10890000, 60), (20559600, 0),
         (10890000, 60), (20559600, 0), (10890000, 60), (20559600, 0), (10890000, 60),
         (20559600, 0), (10890000, 60), (20559600, 0)] }

def stJohns : Zone :=
  .ofHistory "America/St_Johns"
    { initial := -210, base := -210, origin := -1664130548
      changes :=
        [(0, 60), (13993200, 0), (18061200, 60), (16930800, 0), (16495200, 60), (8550000, 0),
         (22813200, 60), (15721200, 0), (15728400, 60), (15721200, 0), (16333200, 60),
         (15116400, 0), (16333200, 60), (15116400, 0), (16333200, 60), (15116400, 0),
         (16333200, 60), (15116400, 0), (16333200, 60), (15721200, 0), (15728400, 60),
         (15721200, 0), (16333200, 60), (15116400, 0), (16333200, 60), (15116400, 0),
         (16333200, 60), (15116400, 0), (16333200, 60), (15116400, 0), (16333200, 60),
         (15721200, 0), (16333200, 60), (15116400, 0), (16333200, 60), (15116400, 0),
         (16333148, 60), (15116400, 0), (16941600, 60), (12697200, 0), (18752400, 60),
         (12697200, 0), (18752400, 60), (12697200, 0), (19357200, 60), (12092400, 0),
         (19357200, 60), (12697200, 0), (18752400, 60), (12697200, 0), (18752400, 60),
         (106966800, 0), (19357200, 60), (12697200, 0), (18752400, 60), (12697200, 0),
         (18752400, 60), (12697200, 0), (18752400, 60), (12697200, 0), (19357200, 60),
         (12697200, 0), (17542800, 60), (13302000, 0), (18147600, 60), (13302000, 0),
         (18147600, 60), (13302000, 0), (18147600, 60), (13302000, 0), (18147600, 60),
         (13302000, 0), (18752400, 60), (13302000, 0), (18147600, 60), (13302000, 0),
         (18147600, 60), (13302000, 0), (18147600, 60), (13302000, 0), (18147600, 60),
         (16326000, 0), (15728400, 60), (15721200, 0), (15728400, 60), (15721200, 0),
         (15728400, 60), (15721200, 0), (15728400, 60), (15721200, 0), (15728400, 60),
         (16326000, 0), (15123600, 60), (16326000, 0), (15728400, 60), (15721200, 0),
         (15728400, 60), (15721200, 0), (15728400, 60), (15721200, 0), (15728400, 60),
         (15721200, 0), (15728400, 60), (16326000, 0), (15728400, 60), (15721200, 0),
         (15728400, 60), (15721200, 0), (15728400, 60), (15721200, 0), (15728400, 60),
         (15721200, 0), (15728400, 60), (16326000, 0), (15123600, 60), (16326000, 0),
         (15728400, 60), (15721200, 0), (15728400, 60), (15721200, 0), (15728400, 60),
         (15721200, 0), (15728400, 60), (15721200, 0), (15728400, 60), (16326000, 0),
         (15123600, 60), (16326000, 0), (15728400, 60), (15721200, 0), (15728400, 60),
         (15721200, 0), (15728400, 60), (15721200, 0), (13906860, 60), (17535600, 0),
         (13914000, 120), (18136800, 0), (13312800, 60), (18140400, 0), (13309200, 60),
         (18140400, 0), (13914000, 60), (17535600, 0), (13914000, 60), (17535600, 0),
         (13914000, 60), (18140400, 0), (13309200, 60), (18140400, 0), (13309200, 60),
         (18140400, 0), (13914000, 60), (17535600, 0), (13914000, 60), (17535600, 0),
         (13914000, 60), (17535600, 0), (13914000, 60), (18140400, 0), (13309200, 60),
         (18140400, 0), (13309200, 60), (18140400, 0), (13914000, 60), (17535600, 0),
         (13914000, 60), (17535600, 0), (13914000, 60), (18140400, 0), (13309200, 60),
         (18140400, 0), (13309200, 60), (18140400, 0), (11494800, 60), (20559600, 0),
         (10890000, 60), (20559600, 0), (10890000, 60), (20559600, 0), (11494800, 60),
         (20559600, 0), (10890000, 60), (20566740, 0), (10890000, 60), (20559600, 0),
         (10890000, 60), (20559600, 0), (10890000, 60), (20559600, 0), (10890000, 60),
         (20559600, 0), (11494800, 60), (20559600, 0), (10890000, 60), (20559600, 0),
         (10890000, 60), (20559600, 0), (10890000, 60), (20559600, 0), (10890000, 60),
         (20559600, 0), (11494800, 60), (20559600, 0), (10890000, 60), (20559600, 0),
         (10890000, 60), (20559600, 0), (10890000, 60), (20559600, 0), (10890000, 60),
         (20559600, 0), (10890000, 60), (20559600, 0), (11494800, 60), (20559600, 0),
         (10890000, 60), (20559600, 0), (10890000, 60), (20559600, 0), (10890000, 60),
         (20559600, 0), (10890000, 60), (20559600, 0), (11494800, 60), (20559600, 0),
         (10890000, 60), (20559600, 0), (10890000, 60), (20559600, 0), (10890000, 60),
         (20559600, 0), (10890000, 60), (20559600, 0), (10890000, 60), (20559600, 0),
         (11494800, 60), (20559600, 0), (10890000, 60), (20559600, 0), (10890000, 60),
         (20559600, 0), (10890000, 60), (20559600, 0), (10890000, 60), (20559600, 0),
         (10890000, 60), (20559600, 0), (11494800, 60), (20559600, 0), (10890000, 60),
         (20559600, 0), (10890000, 60), (20559600, 0), (10890000, 60), (20559600, 0),
         (10890000, 60), (20559600, 0), (11494800, 60), (20559600, 0), (10890000, 60),
         (20559600, 0), (10890000, 60), (20559600, 0), (10890000, 60), (20559600, 0),
         (10890000, 60), (20559600, 0), (10890000, 60), (20559600, 0), (11494800, 60),
         (20559600, 0), (10890000, 60), (20559600, 0), (10890000, 60), (20559600, 0),
         (10890000, 60), (20559600, 0), (10890000, 60), (20559600, 0), (11494800, 60),
         (20559600, 0), (10890000, 60), (20559600, 0), (10890000, 60), (20559600, 0),
         (10890000, 60), (20559600, 0), (10890000, 60), (20559600, 0), (10890000, 60),
         (20559600, 0), (11494800, 60), (20559600, 0), (10890000, 60), (20559600, 0),
         (10890000, 60), (20559600, 0), (10890000, 60), (20559600, 0), (10890000, 60),
         (20559600, 0), (10890000, 60), (20559600, 0), (11494800, 60), (20559600, 0),
         (10890000, 60), (20559600, 0), (10890000, 60), (20559600, 0), (10890000, 60),
         (20559600, 0), (10890000, 60), (20559600, 0), (11494800, 60), (20559600, 0),
         (10890000, 60), (20559600, 0), (10890000, 60), (20559600, 0), (10890000, 60),
         (20559600, 0), (10890000, 60), (20559600, 0), (10890000, 60), (20559600, 0),
         (11494800, 60), (20559600, 0), (10890000, 60), (20559600, 0), (10890000, 60),
         (20559600, 0), (10890000, 60), (20559600, 0), (10890000, 60), (20559600, 0),
         (11494800, 60), (20559600, 0), (10890000, 60), (20559600, 0), (10890000, 60),
         (20559600, 0), (10890000, 60), (20559600, 0), (10890000, 60), (20559600, 0),
         (10890000, 60), (20559600, 0), (11494800, 60), (20559600, 0), (10890000, 60),
         (20559600, 0), (10890000, 60), (20559600, 0), (10890000, 60), (20559600, 0),
         (10890000, 60), (20559600, 0), (10890000, 60), (20559600, 0)] }

def kolkata : Zone :=
  .ofHistory "Asia/Kolkata"
    { initial := 353, base := 321, origin := -3155694800
      changes :=
        [(0, 0), (1135989130, 9), (1128124270, 69), (19522800, 9), (9421200, 69), (98492400, 9)] }

def kathmandu : Zone :=
  .ofHistory "Asia/Kathmandu"
    { initial := 341, base := 330, origin := -1577943676
      changes :=
        [(0, 0), (2082845476, 15)] }

def tokyo : Zone :=
  .ofHistory "Asia/Tokyo"
    { initial := 558, base := 540, origin := -2587712400
      changes :=
        [(0, 0), (1903910400, 60), (11491200, 0), (17539200, 60), (13910400, 0), (20563200, 60),
         (10886400, 0), (20563200, 60), (10886400, 0)] }

def lordHowe : Zone :=
  .ofHistory "Australia/Lord_Howe"
    { initial := 636, base := 600, origin := -2364114980
      changes :=
        [(0, 0), (2716331780, 30), (20568600, 90), (11487600, 30), (20566800, 90), (10882800, 30),
         (20566800, 90), (10882800, 30), (20566800, 90), (10882800, 30), (20566800, 60),
         (12094200, 30), (18750600, 60), (12699000, 30), (19355400, 60), (12699000, 30),
         (19355400, 60), (12094200, 30), (19355400, 60), (10884600, 30), (20565000, 60),
         (10884600, 30), (20565000, 60), (10884600, 30), (20565000, 60), (11489400, 30),
         (20565000, 60), (10884600, 30), (20565000, 60), (10884600, 30), (20565000, 60),
         (13303800, 30), (18145800, 60), (13303800, 30), (18145800, 60), (13303800, 30),
         (18145800, 60), (13303800, 30), (18750600, 60), (12699000, 30), (13307400, 60),
         (18142200, 30), (18750600, 60), (13303800, 30), (18145800, 60), (13303800, 30),
         (18145800, 60), (13303800, 30), (18750600, 60), (12699000, 30), (18750600, 60),
         (13303800, 30), (18145800, 60), (12699000, 30), (18750600, 60), (13908600, 30),
         (15726600, 60), (15723000, 30), (15726600, 60), (15723000, 30), (15726600, 60),
         (15723000, 30), (15726600, 60), (15723000, 30), (16331400, 60), (15723000, 30),
         (15726600, 60), (15723000, 30), (15726600, 60), (15723000, 30), (15726600, 60),
         (15723000, 30), (15726600, 60), (15723000, 30), (15726600, 60), (15723000, 30),
         (16331400, 60), (15723000, 30), (15726600, 60), (15723000, 30), (15726600, 60),
         (15723000, 30), (15726600, 60), (15723000, 30), (15726600, 60), (15723000, 30),
         (15726600, 60), (16327800, 30), (15726600, 60), (15723000, 30), (15726600, 60),
         (15723000, 30), (15726600, 60), (15723000, 30), (15726600, 60), (15723000, 30),
         (15726600, 60), (15723000, 30), (16331400, 60), (15723000, 30), (15726600, 60),
         (15723000, 30), (15726600, 60), (15723000, 30), (15726600, 60), (15723000, 30),
         (15726600, 60), (15723000, 30), (15726600, 60), (15723000, 30), (16331400, 60),
         (15723000, 30), (15726600, 60), (15723000, 30), (15726600, 60), (15723000, 30),
         (15726600, 60), (15723000, 30), (15726600, 60), (15723000, 30), (16331400, 60),
         (15723000, 30), (15726600, 60), (15723000, 30), (15726600, 60), (15723000, 30),
         (15726600, 60), (15723000, 30), (15726600, 60), (15723000, 30), (15726600, 60),
         (15723000, 30), (16331400, 60), (15723000, 30), (15726600, 60), (15723000, 30),
         (15726600, 60), (15723000, 30), (15726600, 60), (15723000, 30), (15726600, 60),
         (15723000, 30), (15726600, 60), (16327800, 30), (15726600, 60), (15723000, 30),
         (15726600, 60), (15723000, 30), (15726600, 60), (15723000, 30), (15726600, 60),
         (15723000, 30), (15726600, 60), (15723000, 30), (16331400, 60), (15723000, 30),
         (15726600, 60), (15723000, 30), (15726600, 60), (15723000, 30), (15726600, 60),
         (15723000, 30), (15726600, 60), (15723000, 30), (15726600, 60), (15723000, 30),
         (16331400, 60), (15723000, 30), (15726600, 60), (15723000, 30), (15726600, 60),
         (15723000, 30), (15726600, 60), (15723000, 30), (15726600, 60), (15723000, 30),
         (16331400, 60), (15723000, 30), (15726600, 60), (15723000, 30), (15726600, 60),
         (15723000, 30), (15726600, 60), (15723000, 30), (15726600, 60), (15723000, 30),
         (15726600, 60), (15723000, 30), (16331400, 60), (15723000, 30), (15726600, 60),
         (15723000, 30), (15726600, 60), (15723000, 30), (15726600, 60), (15723000, 30),
         (15726600, 60), (15723000, 30), (15726600, 60), (16327800, 30), (15726600, 60),
         (15723000, 30), (15726600, 60), (15723000, 30), (15726600, 60), (15723000, 30),
         (15726600, 60), (15723000, 30), (15726600, 60), (15723000, 30), (16331400, 60),
         (15723000, 30), (15726600, 60), (15723000, 30), (15726600, 60), (15723000, 30),
         (15726600, 60), (15723000, 30), (15726600, 60), (15723000, 30), (15726600, 60),
         (15723000, 30), (16331400, 60), (15723000, 30), (15726600, 60), (15723000, 30),
         (15726600, 60), (15723000, 30), (15726600, 60), (15723000, 30), (15726600, 60),
         (15723000, 30), (16331400, 60), (15723000, 30), (15726600, 60), (15723000, 30),
         (15726600, 60), (15723000, 30), (15726600, 60)] }

def apia : Zone :=
  .ofHistory "Pacific/Apia"
    { initial := 753, base := -690, origin := -2445424384
      changes :=
        [(0, 4), (583545600, 0), (1230768184, 30), (1916609400, 90), (16254000, 30),
         (15120000, 90), (8366400, 1530), (7963200, 1470), (15724800, 1530), (16329600, 1470),
         (15120000, 1530), (16329600, 1470), (15120000, 1530), (16329600, 1470), (15120000, 1530),
         (16329600, 1470), (15120000, 1530), (16329600, 1470), (15120000, 1530), (16329600, 1470),
         (15724800, 1530), (16329600, 1470), (15120000, 1530), (16329600, 1470), (15120000, 1530),
         (16329600, 1470)] }

instance : ZoneDatabase where
  named := [berlin, newYork, stJohns, kolkata, kathmandu, tokyo, lordHowe, apia]
  host := fixed "local" 0

end ChartLint.Zone
