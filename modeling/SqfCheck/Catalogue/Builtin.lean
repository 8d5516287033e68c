import SqfCheck.Catalogue

/-!
# The builtin catalogue

The commands of the language as the checker knows them when it is given no other catalogue,
grouped by what they are for. Each line is an overload in the form that `CatalogueLine.read?`
reads : `b` for a command with two operands, `u` for one with an operand to the right, `n` for
one with none.
-/

namespace SqfCheck

namespace Builtin

/-- Operators. -/
def operators : String :=
  "
  b:SCALAR + SCALAR
  b:STRING + STRING
  b:ARRAY + ARRAY
  u:+ SCALAR,ARRAY
  b:SCALAR - SCALAR
  b:ARRAY - ARRAY
  u:- SCALAR
  b:SCALAR * SCALAR
  b:SCALAR / SCALAR
  b:CONFIG / STRING
  b:SCALAR % SCALAR
  b:SCALAR ^ SCALAR
  b:SCALAR mod SCALAR
  b:SCALAR max SCALAR
  b:SCALAR min SCALAR
  b:SCALAR atan2 SCALAR
  b:ANY == ANY
  b:ANY != ANY
  b:SCALAR > SCALAR
  b:SCALAR < SCALAR
  b:SCALAR >= SCALAR
  b:SCALAR <= SCALAR
  b:BOOL && BOOL,CODE
  b:BOOL || BOOL,CODE
  b:BOOL and BOOL,CODE
  b:BOOL or BOOL,CODE
  u:! BOOL
  u:not BOOL
  b:CONFIG >> STRING
  b:ARRAY # SCALAR
  b:SWITCH : CODE
  "

/-- Control structures. -/
def controlStructures : String :=
  "
  u:if BOOL
  b:IF then CODE
  b:IF then ARRAY
  b:IF exitwith CODE
  b:CODE else CODE
  u:while CODE
  b:WHILE do CODE
  u:for STRING
  u:for ARRAY
  b:FOR from SCALAR
  b:FOR to SCALAR
  b:FOR step SCALAR
  b:FOR do CODE
  u:switch ANY
  b:SWITCH do CODE
  u:case ANY
  u:default CODE
  u:with NAMESPACE
  b:WITH do CODE
  u:try CODE
  b:EXCEPTION catch CODE
  u:throw ANY
  u:waituntil CODE
  b:CODE foreach ARRAY,HASHMAP
  u:call CODE
  b:ANY call CODE
  b:ANY spawn CODE
  u:terminate SCRIPT
  u:scriptdone SCRIPT
  u:scopename STRING
  u:breakout STRING
  u:breakto STRING
  u:breakwith ANY
  n:break
  n:continue
  u:continuewith ANY
  u:sleep SCALAR
  u:uisleep SCALAR
  n:canSuspend
  "

/-- Scripts and files. -/
def scriptsFiles : String :=
  "
  u:execvm STRING
  b:ANY execvm STRING
  u:preprocessfile STRING
  u:preprocessfilelinenumbers STRING
  u:loadfile STRING
  u:fileexists STRING
  u:compile STRING
  u:compilefinal STRING,CODE
  u:params ARRAY
  b:ANY params ARRAY
  u:param ARRAY
  b:ANY param ARRAY
  u:private ARRAY,STRING
  u:isnil STRING,CODE
  u:comment STRING
  u:diag_log ANY
  n:diag_ticktime
  n:diag_frameno
  "

/-- Values. -/
def values : String :=
  "
  n:true
  n:false
  n:nil
  n:objnull
  n:grpnull
  n:controlnull
  n:displaynull
  n:locationnull
  n:tasknull
  n:scriptnull
  n:confignull
  n:teammembernull
  n:diaryrecordnull
  n:west
  n:east
  n:independent
  n:resistance
  n:civilian
  n:sidelogic
  n:sideunknown
  n:sideempty
  n:sideenemy
  n:sidefriendly
  n:pi
  "

/-- Type inspection and conversion. -/
def typeInspectionConversion : String :=
  "
  u:typename ANY
  b:ANY isequalto ANY
  b:ANY isequaltype ANY
  b:ANY isequaltypeall ANY
  u:str ANY
  u:format ARRAY
  u:formattext ARRAY
  u:text STRING
  u:parsetext STRING
  u:localize STRING
  u:tostring ARRAY,CODE
  u:toarray STRING
  u:tolower STRING
  u:toupper STRING
  u:trim STRING
  u:parsenumber STRING,BOOL
  u:parsesimplearray STRING
  b:STRING splitstring STRING
  b:ARRAY joinstring STRING
  b:STRING find STRING
  b:ARRAY find ANY
  "

/-- Math. -/
def math : String :=
  "
  u:abs SCALAR
  u:sqrt SCALAR
  u:floor SCALAR
  u:ceil SCALAR
  u:round SCALAR
  u:sin SCALAR
  u:cos SCALAR
  u:tan SCALAR
  u:asin SCALAR
  u:acos SCALAR
  u:atan SCALAR
  u:exp SCALAR
  u:ln SCALAR
  u:log SCALAR
  u:random SCALAR,ARRAY
  u:finite SCALAR
  u:vectormagnitude ARRAY
  b:ARRAY vectoradd ARRAY
  b:ARRAY vectordiff ARRAY
  b:ARRAY vectormultiply SCALAR
  b:ARRAY vectordistance ARRAY
  b:ARRAY vectordotproduct ARRAY
  u:vectornormalized ARRAY
  "

/-- Arrays and hash maps. -/
def arraysHashMaps : String :=
  "
  u:count ARRAY,STRING,HASHMAP
  b:CODE count ARRAY
  b:ARRAY select SCALAR,BOOL,ARRAY,CODE
  b:STRING select SCALAR,ARRAY
  b:CONFIG select SCALAR
  b:ARRAY apply CODE
  b:HASHMAP apply CODE
  b:ARRAY findif CODE
  b:ARRAY pushback ANY
  b:ARRAY pushbackunique ANY
  b:ARRAY append ARRAY
  b:ARRAY insert ARRAY
  b:ARRAY set ARRAY
  b:HASHMAP set ARRAY
  b:ARRAY deleteat SCALAR
  b:HASHMAP deleteat ANY
  b:ARRAY deleterange ARRAY
  b:ARRAY resize SCALAR
  u:reverse ARRAY
  b:ARRAY sort BOOL
  b:ANY in ARRAY,STRING,HASHMAP,OBJECT
  b:ARRAY arrayintersect ARRAY
  u:selectrandom ARRAY
  u:selectmax ARRAY
  u:selectmin ARRAY
  n:createhashmap
  u:createhashmapfromarray ARRAY
  b:HASHMAP get ANY
  b:HASHMAP getordefault ARRAY
  b:HASHMAP merge HASHMAP,ARRAY
  u:keys HASHMAP
  u:values HASHMAP
  "

/-- Namespaces and variables. -/
def namespacesVariables : String :=
  "
  n:missionnamespace
  n:uinamespace
  n:profilenamespace
  n:parsingnamespace
  n:servernamespace
  n:localnamespace
  b:NAMESPACE setvariable ARRAY
  b:OBJECT setvariable ARRAY
  b:GROUP setvariable ARRAY
  b:CONTROL setvariable ARRAY
  b:NAMESPACE getvariable STRING,ARRAY
  b:OBJECT getvariable STRING,ARRAY
  b:GROUP getvariable STRING,ARRAY
  b:CONTROL getvariable STRING,ARRAY
  b:DISPLAY getvariable STRING,ARRAY
  u:publicvariable STRING
  u:publicvariableserver STRING
  b:SCALAR publicvariableclient STRING
  u:addmissioneventhandler ARRAY
  u:removemissioneventhandler ARRAY
  n:saveprofilenamespace
  "

/-- Multiplayer. -/
def multiplayer : String :=
  "
  n:isserver
  n:isdedicated
  n:hasinterface
  n:ismultiplayer
  n:clientowner
  n:allplayers
  b:ANY remoteexec ARRAY
  b:ANY remoteexeccall ARRAY
  u:remoteexec ARRAY
  u:remoteexeccall ARRAY
  u:owner OBJECT
  u:getplayeruid OBJECT
  u:isplayer OBJECT
  "

/-- Time and mission. -/
def timeMission : String :=
  "
  n:time
  n:servertime
  n:daytime
  n:date
  u:setdate ARRAY
  n:worldname
  n:missionname
  n:briefingname
  u:skiptime SCALAR
  u:endmission STRING
  u:failmission STRING
  n:accTime
  u:setacctime SCALAR
  "

/-- Objects and units. -/
def objectsUnits : String :=
  "
  n:player
  n:cursortarget
  n:cursorobject
  n:allunits
  n:alldead
  n:alldeadmen
  n:allgroups
  n:vehicles
  n:allmapmarkers
  n:playableunits
  n:switchableunits
  u:alive OBJECT
  u:isnull OBJECT,GROUP,CONTROL,DISPLAY,LOCATION,TASK,SCRIPT,CONFIG,NETOBJECT
  u:getpos OBJECT,LOCATION
  u:getposatl OBJECT
  u:getposasl OBJECT
  u:getposworld OBJECT
  u:position OBJECT,LOCATION
  b:OBJECT setpos ARRAY
  b:OBJECT setposatl ARRAY
  b:OBJECT setposasl ARRAY
  u:getdir OBJECT
  b:OBJECT getdir OBJECT,ARRAY
  b:OBJECT setdir SCALAR
  u:vehicle OBJECT
  u:group OBJECT
  u:side OBJECT,GROUP
  u:leader OBJECT,GROUP
  u:units GROUP,OBJECT
  u:crew OBJECT
  u:driver OBJECT
  u:gunner OBJECT
  u:commander OBJECT
  b:OBJECT distance OBJECT,ARRAY
  b:ARRAY distance OBJECT,ARRAY
  b:OBJECT distance2d OBJECT,ARRAY
  b:ARRAY distance2d OBJECT,ARRAY
  u:damage OBJECT
  b:OBJECT setdamage SCALAR,ARRAY
  u:typeof OBJECT
  u:name OBJECT,LOCATION
  u:deletevehicle OBJECT
  b:STRING createvehicle ARRAY
  u:createvehicle ARRAY
  u:createvehiclelocal ARRAY
  b:GROUP createunit ARRAY
  b:STRING createunit ARRAY
  u:creategroup SIDE,ARRAY
  u:deletegroup GROUP
  b:ARRAY join OBJECT,GROUP
  b:OBJECT addaction ARRAY
  b:OBJECT removeaction SCALAR
  u:removeallactions OBJECT
  b:OBJECT addeventhandler ARRAY
  b:OBJECT removeeventhandler ARRAY
  b:OBJECT removealleventhandlers STRING
  b:OBJECT addmpeventhandler ARRAY
  b:OBJECT allowdamage BOOL
  b:OBJECT enablesimulation BOOL
  b:OBJECT enablesimulationglobal BOOL
  b:OBJECT hideobject BOOL
  b:OBJECT hideobjectglobal BOOL
  b:OBJECT setcaptive BOOL,SCALAR
  b:OBJECT setunitpos STRING
  b:OBJECT setbehaviour STRING
  b:GROUP setbehaviour STRING
  b:OBJECT setcombatmode STRING
  b:GROUP setcombatmode STRING
  b:OBJECT domove ARRAY
  b:ARRAY domove ARRAY
  u:dostop OBJECT,ARRAY
  b:GROUP addwaypoint ARRAY
  b:OBJECT moveincargo OBJECT,ARRAY
  b:OBJECT moveindriver OBJECT
  u:moveout OBJECT
  b:OBJECT addweapon STRING
  b:OBJECT additem STRING
  b:OBJECT additemtobackpack STRING
  b:OBJECT additemtouniform STRING
  b:OBJECT additemtovest STRING
  b:OBJECT addmagazine STRING,ARRAY
  u:removeallweapons OBJECT
  u:removeallitems OBJECT
  u:weapons OBJECT
  u:magazines OBJECT
  u:items OBJECT
  u:primaryweapon OBJECT
  b:ARRAY nearentities ARRAY,STRING,SCALAR
  b:OBJECT nearentities ARRAY,STRING,SCALAR
  u:nearestobjects ARRAY
  u:nearestobject ARRAY
  b:ARRAY nearestobject STRING,SCALAR
  u:local OBJECT,GROUP
  b:OBJECT setvelocity ARRAY
  u:velocity OBJECT
  u:speed OBJECT
  u:fuel OBJECT
  b:OBJECT setfuel SCALAR
  u:lifestate OBJECT
  u:rank OBJECT
  u:getdammage OBJECT
  u:attachedto OBJECT
  b:OBJECT attachto ARRAY
  u:detach OBJECT
  b:OBJECT say3d STRING,ARRAY
  b:OBJECT setface STRING
  b:OBJECT setobjecttexture ARRAY
  b:OBJECT setobjecttextureglobal ARRAY
  "

/-- Markers and locations. -/
def markersLocations : String :=
  "
  u:createmarker ARRAY
  u:createmarkerlocal ARRAY
  u:deletemarker STRING
  u:deletemarkerlocal STRING
  u:getmarkerpos STRING,ARRAY
  u:markerpos STRING,ARRAY
  b:STRING setmarkerpos ARRAY,OBJECT
  b:STRING setmarkerposlocal ARRAY,OBJECT
  b:STRING setmarkertype STRING
  b:STRING setmarkercolor STRING
  b:STRING setmarkertext STRING
  b:STRING setmarkeralpha SCALAR
  u:markertext STRING
  u:createlocation ARRAY
  u:deletelocation LOCATION
  u:nearestlocations ARRAY
  u:text LOCATION
  "

/-- Communication. -/
def communication : String :=
  "
  u:hint STRING,TEXT
  u:hintsilent STRING,TEXT
  u:hintc STRING
  u:systemchat STRING
  b:OBJECT sidechat STRING
  b:ARRAY sidechat STRING
  b:OBJECT globalchat STRING
  b:OBJECT groupchat STRING
  b:OBJECT vehiclechat STRING
  u:titletext ARRAY
  u:cuttext ARRAY
  u:playsound STRING,ARRAY
  u:playmusic STRING,ARRAY
  b:OBJECT creatediaryrecord ARRAY
  b:OBJECT creatediarysubject ARRAY
  b:OBJECT createsimpletask ARRAY
  b:TASK settaskstate STRING
  b:TASK setsimpletaskdescription ARRAY
  "

/-- Config. -/
def config : String :=
  "
  n:configfile
  n:missionconfigfile
  n:campaignconfigfile
  u:gettext CONFIG
  u:getnumber CONFIG
  u:getarray CONFIG
  u:isclass CONFIG
  u:istext CONFIG
  u:isnumber CONFIG
  u:isarray CONFIG
  u:configname CONFIG
  u:confighierarchy CONFIG
  u:inheritsfrom CONFIG
  b:STRING configclasses CONFIG
  "

/-- UI. -/
def ui : String :=
  "
  u:createdialog STRING
  u:closedialog SCALAR
  u:finddisplay SCALAR,STRING
  b:DISPLAY displayctrl SCALAR
  b:DISPLAY displayaddeventhandler ARRAY
  b:DISPLAY ctrlcreate ARRAY
  u:ctrltext CONTROL,SCALAR
  b:CONTROL ctrlsettext STRING
  u:ctrlsettext ARRAY
  b:CONTROL ctrlshow BOOL
  b:CONTROL ctrlenable BOOL
  u:ctrlcommit SCALAR
  b:CONTROL ctrlcommit SCALAR
  b:CONTROL ctrlsetposition ARRAY
  b:CONTROL ctrladdeventhandler ARRAY
  b:CONTROL lbadd STRING
  u:lbcursel CONTROL,SCALAR
  b:CONTROL lbsetcursel SCALAR
  u:lbclear CONTROL,SCALAR
  u:closedisplay DISPLAY
  b:DISPLAY closedisplay SCALAR
  n:disableserialization
  u:ctrlparent CONTROL
  "

/-- Units and AI. -/
def unitsAi : String :=
  "
  b:OBJECT,ARRAY setskill SCALAR,ARRAY
  u:skill OBJECT
  b:OBJECT skill STRING
  b:OBJECT skillfinal STRING
  b:OBJECT,STRING iskindof STRING,ARRAY
  b:OBJECT setunitloadout ARRAY,STRING,CONFIG
  u:getunitloadout OBJECT,STRING,CONFIG,ARRAY
  b:OBJECT setunittrait ARRAY
  b:OBJECT getunittrait STRING
  u:getallunittraits OBJECT
  b:OBJECT setrank STRING
  u:rankid OBJECT
  b:OBJECT setunconscious BOOL
  u:incapacitatedstate OBJECT
  b:OBJECT enableai STRING
  b:OBJECT disableai STRING
  b:OBJECT checkaifeature STRING
  b:OBJECT,ARRAY dofollow OBJECT
  b:OBJECT,ARRAY dowatch OBJECT,ARRAY
  b:OBJECT,ARRAY dotarget OBJECT
  b:OBJECT,ARRAY dofire OBJECT
  b:OBJECT,ARRAY doartilleryfire ARRAY
  b:OBJECT,ARRAY commandmove ARRAY
  u:commandstop OBJECT,ARRAY
  b:OBJECT,ARRAY commandfollow OBJECT
  b:OBJECT,ARRAY commandwatch OBJECT,ARRAY
  b:OBJECT,ARRAY commandtarget OBJECT
  b:OBJECT,ARRAY commandfire OBJECT
  b:OBJECT,ARRAY commandartilleryfire ARRAY
  b:OBJECT getartilleryeta ARRAY
  b:ARRAY inrangeofartillery ARRAY
  b:OBJECT,ARRAY forcespeed SCALAR
  b:OBJECT,GROUP setspeedmode STRING
  u:speedmode OBJECT,GROUP
  u:behaviour OBJECT
  u:combatmode OBJECT,GROUP
  u:combatbehaviour OBJECT,GROUP
  b:OBJECT,GROUP setcombatbehaviour STRING
  b:OBJECT,GROUP setformation STRING
  u:formation OBJECT,GROUP,TEAM_MEMBER
  b:OBJECT,GROUP setformdir SCALAR
  u:formationleader OBJECT
  b:OBJECT setunitposweak STRING
  u:unitpos OBJECT
  b:OBJECT allowfleeing SCALAR
  b:ARRAY allowgetin BOOL
  b:ARRAY ordergetin BOOL
  u:assignedvehicle OBJECT
  u:assignedvehiclerole OBJECT
  u:assignedcommander OBJECT
  u:assigneddriver OBJECT
  u:assignedgunner OBJECT
  u:assignedtarget OBJECT
  u:effectivecommander OBJECT
  b:OBJECT assignasdriver OBJECT
  b:OBJECT assignascargo OBJECT
  b:OBJECT assignasgunner OBJECT
  b:OBJECT assignascommander OBJECT
  b:OBJECT assignasturret ARRAY
  u:unassignvehicle OBJECT
  b:OBJECT moveingunner OBJECT
  b:OBJECT moveincommander OBJECT
  b:OBJECT moveinturret ARRAY
  b:OBJECT moveinany OBJECT
  b:OBJECT,GROUP leavevehicle OBJECT
  u:unitready OBJECT,ARRAY
  u:expecteddestination OBJECT
  u:movetocompleted OBJECT
  u:movetofailed OBJECT
  b:OBJECT,GROUP move ARRAY
  b:OBJECT,GROUP addvehicle OBJECT
  b:OBJECT allowsprint BOOL
  b:OBJECT forcewalk BOOL
  u:isforcedwalk OBJECT
  b:OBJECT limitspeed SCALAR
  b:OBJECT forcefollowroad BOOL
  u:canmove OBJECT
  u:canfire OBJECT
  u:istouchingground OBJECT
  u:stance OBJECT
  u:animationstate OBJECT
  b:OBJECT playmove STRING
  b:OBJECT playmovenow STRING
  b:OBJECT switchmove STRING,ARRAY
  b:OBJECT playaction STRING
  b:OBJECT playactionnow STRING
  b:OBJECT animate ARRAY
  b:OBJECT animatesource ARRAY
  b:OBJECT animatedoor ARRAY
  b:OBJECT animationphase STRING
  b:OBJECT animationsourcephase STRING
  u:getoxygenremaining OBJECT
  b:OBJECT setoxygenremaining SCALAR
  u:getfatigue OBJECT
  b:OBJECT setfatigue SCALAR
  u:getstamina OBJECT
  b:OBJECT setstamina SCALAR
  b:OBJECT enablefatigue BOOL
  b:OBJECT enablestamina BOOL
  u:isstaminaenabled OBJECT
  u:getbleedingremaining OBJECT
  b:OBJECT setbleedingremaining SCALAR
  u:faction OBJECT
  u:rating OBJECT
  b:OBJECT addrating SCALAR
  u:score OBJECT
  b:OBJECT addscore SCALAR
  b:SIDE addscoreside SCALAR
  u:scoreside SIDE
  u:getplayerscores OBJECT
  u:captive OBJECT
  u:captivenum OBJECT
  u:aimpos OBJECT
  u:eyepos OBJECT
  u:eyedirection OBJECT
  u:getcameraviewdirection OBJECT
  b:OBJECT weapondirection STRING
  u:weaponstate OBJECT,ARRAY
  b:SIDE,OBJECT,GROUP knowsabout OBJECT
  b:OBJECT,GROUP reveal OBJECT,ARRAY
  b:OBJECT targetknowledge OBJECT
  b:OBJECT,GROUP findnearestenemy OBJECT,ARRAY
  b:OBJECT neartargets SCALAR
  b:OBJECT countenemy ARRAY
  b:OBJECT countfriendly ARRAY
  b:OBJECT countunknown ARRAY
  b:SIDE countside ARRAY
  b:OBJECT setspeaker STRING
  b:OBJECT setpitch SCALAR
  b:OBJECT setname STRING,ARRAY
  u:face OBJECT
  u:speaker OBJECT
  u:createagent ARRAY
  b:STRING createagent ARRAY
  u:agent TEAM_MEMBER
  n:agents
  b:OBJECT kbaddtopic ARRAY
  b:OBJECT kbtell ARRAY
  b:OBJECT kbhastopic STRING
  "

/-- Groups and waypoints. -/
def groupsWaypoints : String :=
  "
  b:ARRAY joinsilent OBJECT,GROUP
  b:ARRAY joinas ARRAY
  b:ARRAY joinassilent ARRAY
  b:GROUP setgroupid ARRAY
  b:GROUP setgroupidglobal ARRAY
  u:groupid GROUP
  u:groupowner GROUP
  b:GROUP setgroupowner SCALAR
  b:GROUP selectleader OBJECT
  u:groupfromnetid STRING
  u:objectfromnetid STRING
  u:netid OBJECT,GROUP
  b:GROUP deletegroupwhenempty BOOL
  u:isgroupdeletedwhenempty GROUP
  u:groupselectedunits OBJECT
  u:waypoints GROUP,OBJECT
  u:currentwaypoint GROUP
  b:GROUP setcurrentwaypoint ARRAY
  u:deletewaypoint ARRAY
  b:ARRAY setwaypointtype STRING
  b:ARRAY setwaypointbehaviour STRING
  b:ARRAY setwaypointcombatmode STRING
  b:ARRAY setwaypointspeed STRING
  b:ARRAY setwaypointformation STRING
  b:ARRAY setwaypointstatements ARRAY
  b:ARRAY setwaypointcompletionradius SCALAR
  b:ARRAY setwaypointtimeout ARRAY
  b:ARRAY setwaypointposition ARRAY
  b:ARRAY setwaypointhouseposition SCALAR
  b:ARRAY setwaypointdescription STRING
  b:ARRAY setwaypointvisible BOOL
  b:ARRAY waypointattachvehicle OBJECT
  b:ARRAY waypointattachobject OBJECT,SCALAR
  u:waypointposition ARRAY
  u:waypointtype ARRAY
  u:waypointbehaviour ARRAY
  u:waypointspeed ARRAY
  b:ARRAY synchronizewaypoint ARRAY
  b:OBJECT synchronizeobjectsadd ARRAY
  b:OBJECT synchronizeobjectsremove ARRAY
  u:synchronizedobjects OBJECT
  b:GROUP addgroupicon ARRAY
  u:cleargroupicons GROUP
  b:GROUP setgroupiconparams ARRAY
  u:setgroupiconsvisible ARRAY
  n:groupiconsvisible
  b:SIDE setfriend ARRAY
  b:SIDE getfriend SIDE
  u:createcenter SIDE
  u:deletecenter SIDE
  n:blufor
  n:opfor
  n:sideambientlife
  n:playerside
  u:playableslotsnumber SIDE
  "

/-- Vehicles. -/
def vehicles : String :=
  "
  b:OBJECT lock BOOL,SCALAR
  u:locked OBJECT
  b:OBJECT lockdriver BOOL
  b:OBJECT lockturret ARRAY
  b:OBJECT lockcargo BOOL,ARRAY
  b:OBJECT setvehiclelock STRING
  u:fullcrew OBJECT,ARRAY
  b:OBJECT emptypositions STRING
  u:allturrets OBJECT,ARRAY
  u:assignedcargo OBJECT
  b:OBJECT turretunit ARRAY
  b:OBJECT turretlocal ARRAY
  u:createvehiclecrew OBJECT
  u:vehiclevarname OBJECT
  b:OBJECT setvehiclevarname STRING
  b:OBJECT engineon BOOL
  u:isengineon OBJECT
  b:OBJECT setfuelcargo SCALAR
  u:getfuelcargo OBJECT
  b:OBJECT setammocargo SCALAR
  u:getammocargo OBJECT
  b:OBJECT setrepaircargo SCALAR
  u:getrepaircargo OBJECT
  b:OBJECT setfuelconsumptioncoef SCALAR
  b:OBJECT action ARRAY
  b:OBJECT setpilotlight BOOL
  b:OBJECT setcollisionlight BOOL
  u:islighton OBJECT,ARRAY
  b:OBJECT flyinheight SCALAR,ARRAY
  b:OBJECT flyinheightasl ARRAY
  b:OBJECT land STRING
  b:OBJECT landat OBJECT,SCALAR,ARRAY
  u:isautonomous OBJECT
  b:OBJECT setautonomous BOOL
  u:getconnecteduav OBJECT
  b:OBJECT connectterminaltouav OBJECT
  u:uavcontrol OBJECT
  n:allunitsuav
  b:OBJECT setvehiclecargo OBJECT
  u:getvehiclecargo OBJECT
  u:isvehiclecargo OBJECT
  u:ropecreate ARRAY
  u:ropedestroy OBJECT
  u:ropes OBJECT
  u:ropeattachedobjects OBJECT
  b:OBJECT setslingload OBJECT
  u:getslingload OBJECT
  b:OBJECT canslingload OBJECT
  u:someammo OBJECT
  b:OBJECT setammo ARRAY
  b:OBJECT ammo STRING
  b:OBJECT setvehicleammo SCALAR
  b:OBJECT setvehicleammodef SCALAR
  u:magazinesammo OBJECT,ARRAY
  u:magazinesammofull OBJECT,ARRAY
  u:magazinesallturrets OBJECT,ARRAY
  b:OBJECT magazinesturret ARRAY
  b:OBJECT weaponsturret ARRAY
  b:OBJECT addmagazineturret ARRAY
  b:OBJECT removemagazineturret ARRAY
  b:OBJECT addweaponturret ARRAY
  b:OBJECT removeweaponturret ARRAY
  u:currentweapon OBJECT
  u:currentmagazine OBJECT
  u:currentmuzzle OBJECT
  b:OBJECT selectweapon STRING
  b:OBJECT selectweaponturret ARRAY
  b:OBJECT fire STRING,ARRAY
  b:OBJECT forceweaponfire ARRAY
  u:reload OBJECT
  u:needreload OBJECT
  u:canunloadincombat OBJECT
  b:OBJECT allowcrewinimmobile BOOL
  "

/-- Damage and hit points. -/
def damageHitPoints : String :=
  "
  b:OBJECT sethitpointdamage ARRAY
  b:OBJECT gethitpointdamage STRING
  u:getallhitpointsdamage OBJECT
  b:OBJECT sethitindex ARRAY
  b:OBJECT gethitindex SCALAR
  b:OBJECT sethit ARRAY
  b:OBJECT gethit STRING
  u:isdamageallowed OBJECT
  u:isburning OBJECT
  b:OBJECT inflame BOOL
  u:inflamed OBJECT
  b:OBJECT setshotparents ARRAY
  u:getshotparents OBJECT
  "

/-- Inventory. -/
def inventory : String :=
  "
  u:uniform OBJECT
  u:vest OBJECT
  u:backpack OBJECT
  u:headgear OBJECT
  u:goggles OBJECT
  u:hmd OBJECT
  u:binocular OBJECT
  u:secondaryweapon OBJECT
  u:handgunweapon OBJECT
  u:uniformcontainer OBJECT
  u:vestcontainer OBJECT
  u:backpackcontainer OBJECT
  u:uniformitems OBJECT
  u:vestitems OBJECT
  u:backpackitems OBJECT
  u:assigneditems OBJECT,ARRAY
  b:OBJECT forceadduniform STRING
  b:OBJECT adduniform STRING
  b:OBJECT addvest STRING
  b:OBJECT addbackpack STRING
  b:OBJECT addbackpackglobal STRING
  b:OBJECT addheadgear STRING
  b:OBJECT addgoggles STRING
  u:removeuniform OBJECT
  u:removevest OBJECT
  u:removebackpack OBJECT
  u:removebackpackglobal OBJECT
  u:removeheadgear OBJECT
  u:removegoggles OBJECT
  b:OBJECT linkitem STRING
  b:OBJECT unlinkitem STRING
  b:OBJECT assignitem STRING
  b:OBJECT unassignitem STRING
  b:OBJECT removeitem STRING
  b:OBJECT removeitems STRING
  b:OBJECT removemagazine STRING,ARRAY
  b:OBJECT removemagazines STRING
  b:OBJECT removemagazineglobal STRING
  b:OBJECT removeweapon STRING
  b:OBJECT removeweaponglobal STRING
  b:OBJECT addweaponglobal STRING
  b:OBJECT addmagazineglobal STRING
  b:OBJECT addmagazines ARRAY
  b:OBJECT hasweapon STRING
  b:OBJECT addprimaryweaponitem STRING
  b:OBJECT addsecondaryweaponitem STRING
  b:OBJECT addhandgunitem STRING
  b:OBJECT removeprimaryweaponitem STRING
  b:OBJECT removesecondaryweaponitem STRING
  b:OBJECT removehandgunitem STRING
  u:primaryweaponitems OBJECT
  u:secondaryweaponitems OBJECT
  u:handgunitems OBJECT
  u:primaryweaponmagazine OBJECT
  u:secondaryweaponmagazine OBJECT
  u:handgunmagazine OBJECT
  u:weaponsitems OBJECT,ARRAY
  u:weaponsitemscargo OBJECT
  u:removeallassigneditems OBJECT
  u:removeallcontainers OBJECT
  u:removeallprimaryweaponitems OBJECT
  u:removeallhandgunitems OBJECT
  u:clearweaponcargo OBJECT
  u:clearweaponcargoglobal OBJECT
  u:clearmagazinecargo OBJECT
  u:clearmagazinecargoglobal OBJECT
  u:clearitemcargo OBJECT
  u:clearitemcargoglobal OBJECT
  u:clearbackpackcargo OBJECT
  u:clearbackpackcargoglobal OBJECT
  b:OBJECT addweaponcargo ARRAY
  b:OBJECT addweaponcargoglobal ARRAY
  b:OBJECT addmagazinecargo ARRAY
  b:OBJECT addmagazinecargoglobal ARRAY
  b:OBJECT additemcargo ARRAY
  b:OBJECT additemcargoglobal ARRAY
  b:OBJECT addbackpackcargo ARRAY
  b:OBJECT addbackpackcargoglobal ARRAY
  u:weaponcargo OBJECT
  u:magazinecargo OBJECT
  u:itemcargo OBJECT
  u:backpackcargo OBJECT
  u:getweaponcargo OBJECT
  u:getmagazinecargo OBJECT
  u:getitemcargo OBJECT
  u:getbackpackcargo OBJECT
  u:everycontainer OBJECT
  u:load OBJECT
  u:loadabs OBJECT
  u:loaduniform OBJECT
  u:loadvest OBJECT
  u:loadbackpack OBJECT
  b:OBJECT canadd STRING,ARRAY
  b:OBJECT canadditemtouniform STRING,ARRAY
  b:OBJECT canadditemtovest STRING,ARRAY
  b:OBJECT canadditemtobackpack STRING,ARRAY
  "

/-- Positions and geometry. -/
def positionsGeometry : String :=
  "
  b:OBJECT,ARRAY inarea OBJECT,STRING,LOCATION,ARRAY
  b:ARRAY inareaarray OBJECT,STRING,LOCATION,ARRAY
  b:OBJECT,ARRAY distancesqr OBJECT,ARRAY
  b:OBJECT,ARRAY getreldir OBJECT,ARRAY
  b:OBJECT,ARRAY getrelpos ARRAY
  b:ARRAY getpos ARRAY
  b:OBJECT getpos ARRAY
  u:getdirvisual OBJECT
  u:getposvisual OBJECT
  u:getposaslvisual OBJECT
  u:getposatlvisual OBJECT
  u:getposworldvisual OBJECT
  u:getposaslw OBJECT
  b:OBJECT setposaslw ARRAY
  b:OBJECT setposworld ARRAY
  u:visibleposition OBJECT
  u:visiblepositionasl OBJECT
  u:agltoasl ARRAY
  u:asltoagl ARRAY
  u:atltoasl ARRAY
  u:asltoatl ARRAY
  u:worldtoscreen ARRAY
  u:screentoworld ARRAY
  u:positioncameratoworld ARRAY
  b:OBJECT setvectordir ARRAY
  b:OBJECT setvectorup ARRAY
  b:OBJECT setvectordirandup ARRAY
  u:vectordir OBJECT
  u:vectorup OBJECT
  u:vectordirvisual OBJECT
  u:vectorupvisual OBJECT
  b:OBJECT modeltoworld ARRAY
  b:OBJECT modeltoworldvisual ARRAY
  b:OBJECT modeltoworldworld ARRAY
  b:OBJECT worldtomodel ARRAY
  b:OBJECT worldtomodelvisual ARRAY
  b:OBJECT vectormodeltoworld ARRAY
  b:OBJECT vectorworldtomodel ARRAY
  b:OBJECT setvelocitymodelspace ARRAY
  u:velocitymodelspace OBJECT
  b:OBJECT addforce ARRAY
  b:OBJECT addtorque ARRAY
  b:OBJECT setmass SCALAR
  u:getmass OBJECT
  u:boundingbox OBJECT
  u:boundingboxreal OBJECT,ARRAY
  b:SCALAR boundingboxreal OBJECT
  u:boundingcenter OBJECT
  u:sizeof STRING
  u:surfaceiswater ARRAY
  u:surfacetype ARRAY
  u:surfacenormal ARRAY
  u:getterrainheightasl ARRAY
  u:lineintersects ARRAY
  u:lineintersectssurfaces ARRAY
  u:lineintersectsobjs ARRAY
  u:lineintersectswith ARRAY
  u:terrainintersect ARRAY
  u:terrainintersectasl ARRAY
  b:OBJECT checkvisibility ARRAY
  u:nearestbuilding OBJECT,ARRAY
  b:OBJECT buildingpos SCALAR
  u:nearestterrainobjects ARRAY
  u:nearestlocation ARRAY
  b:OBJECT,ARRAY nearobjects SCALAR,ARRAY
  b:OBJECT,ARRAY nearsupplies SCALAR
  b:OBJECT,ARRAY nearroads SCALAR
  u:roadat OBJECT,ARRAY
  u:isonroad OBJECT,ARRAY
  u:roadsconnectedto OBJECT,ARRAY
  u:getroadinfo OBJECT
  u:selectbestplaces ARRAY
  n:worldsize
  "

/-- Object state. -/
def objectState : String :=
  "
  b:OBJECT setobjectscale SCALAR
  u:getobjectscale OBJECT
  u:getobjecttextures OBJECT
  b:OBJECT setobjectmaterial ARRAY
  b:OBJECT setobjectmaterialglobal ARRAY
  u:getobjectmaterials OBJECT
  b:OBJECT setflagtexture STRING
  u:flagtexture OBJECT
  b:OBJECT setflagowner OBJECT
  u:flagowner OBJECT
  b:OBJECT setflagside SIDE
  b:OBJECT,GROUP enabledynamicsimulation BOOL
  u:dynamicsimulationenabled OBJECT,GROUP
  u:enabledynamicsimulationsystem BOOL
  b:OBJECT triggerdynamicsimulation BOOL
  u:simulationenabled OBJECT
  u:isobjecthidden OBJECT
  b:OBJECT enablecollisionwith OBJECT
  b:OBJECT disablecollisionwith OBJECT
  b:OBJECT awake BOOL
  u:isawake OBJECT
  b:OBJECT setowner SCALAR
  u:objectparent OBJECT
  u:attachedobjects OBJECT
  u:issimpleobject OBJECT
  u:getmodelinfo OBJECT
  u:createsimpleobject ARRAY
  u:createmine ARRAY
  u:createsoundsource ARRAY
  b:OBJECT removempeventhandler ARRAY
  b:OBJECT removeallmpeventhandlers STRING
  u:configof OBJECT
  "

/-- Triggers. -/
def triggers : String :=
  "
  u:createtrigger ARRAY
  b:OBJECT settriggerarea ARRAY
  b:OBJECT settriggeractivation ARRAY
  b:OBJECT settriggerstatements ARRAY
  b:OBJECT settriggertimeout ARRAY
  b:OBJECT settriggertext STRING
  b:OBJECT settriggertype STRING
  b:OBJECT settriggerinterval SCALAR
  b:OBJECT triggerattachvehicle ARRAY
  u:triggerarea OBJECT
  u:triggeractivated OBJECT
  u:triggeractivation OBJECT
  u:triggerstatements OBJECT
  u:list OBJECT
  "

/-- Environment. -/
def environment : String :=
  "
  n:overcast
  n:overcastforecast
  n:rain
  n:fog
  n:fogforecast
  n:fogparams
  n:wind
  n:winddir
  n:windstr
  n:gusts
  n:lightnings
  n:humidity
  n:moonintensity
  n:sunormoon
  n:waves
  n:rainbow
  b:SCALAR setovercast SCALAR
  b:SCALAR setrain SCALAR
  b:SCALAR setfog SCALAR,ARRAY
  b:SCALAR setwindstr SCALAR
  b:SCALAR setwinddir SCALAR
  b:SCALAR setwindforce SCALAR
  b:SCALAR setgusts SCALAR
  b:SCALAR setlightnings SCALAR
  b:SCALAR setrainbow SCALAR
  b:SCALAR setwaves SCALAR
  u:setwind ARRAY
  n:forceweatherchange
  n:simulweathersync
  n:timemultiplier
  u:settimemultiplier SCALAR
  n:environmentenabled
  u:enableenvironment BOOL,ARRAY
  n:viewdistance
  u:setviewdistance SCALAR
  n:getobjectviewdistance
  u:setobjectviewdistance SCALAR,ARRAY
  u:setterraingrid SCALAR
  n:getterraingrid
  n:systemtime
  n:systemtimeutc
  u:datetonumber ARRAY
  u:numbertodate ARRAY
  "

/-- Camera and screen effects. -/
def cameraScreenEffects : String :=
  "
  u:camcreate ARRAY
  b:STRING camcreate ARRAY
  u:camdestroy OBJECT
  b:OBJECT cameraeffect ARRAY
  b:OBJECT camsettarget OBJECT,ARRAY
  b:OBJECT camsetpos ARRAY
  b:OBJECT camsetfov SCALAR
  b:OBJECT camsetdir ARRAY
  b:OBJECT camcommit SCALAR
  u:camcommitted OBJECT
  b:OBJECT campreparetarget OBJECT,ARRAY
  b:OBJECT campreparepos ARRAY
  b:OBJECT campreparefov SCALAR
  b:OBJECT camcommitprepared SCALAR
  b:OBJECT switchcamera STRING
  n:cameraview
  n:cameraon
  u:selectplayer OBJECT
  u:showcinemaborder BOOL
  u:cutrsc ARRAY
  b:STRING,SCALAR cutrsc ARRAY
  b:STRING,SCALAR cuttext ARRAY
  b:STRING,SCALAR cutfadeout SCALAR
  u:titlefadeout SCALAR
  u:titlersc ARRAY
  u:titlecut ARRAY
  u:ppeffectcreate ARRAY
  b:SCALAR,ARRAY ppeffectadjust ARRAY
  b:SCALAR,ARRAY ppeffectcommit SCALAR
  b:SCALAR,ARRAY ppeffectenable BOOL
  u:ppeffectdestroy SCALAR,ARRAY
  u:ppeffectcommitted SCALAR,STRING
  u:setaperture SCALAR
  u:setaperturenew ARRAY
  "

/-- Sound and particles. -/
def soundParticles : String :=
  "
  u:playsound3d ARRAY
  u:playsoundui ARRAY
  u:stopsound SCALAR
  b:OBJECT,ARRAY say STRING,ARRAY
  b:OBJECT,ARRAY say2d STRING,ARRAY
  b:SCALAR fademusic SCALAR
  b:SCALAR fadesound SCALAR
  b:SCALAR faderadio SCALAR
  b:SCALAR fadespeech SCALAR
  b:SCALAR fadeenvironment SCALAR
  n:musicvolume
  n:soundvolume
  u:enableradio BOOL
  u:enablesentences BOOL
  u:addmusiceventhandler ARRAY
  u:removemusiceventhandler ARRAY
  u:drop ARRAY
  b:OBJECT setparticleparams ARRAY
  b:OBJECT setparticlerandom ARRAY
  b:OBJECT setparticlecircle ARRAY
  b:OBJECT setparticleclass STRING
  b:OBJECT setdropinterval SCALAR
  b:OBJECT setlightbrightness SCALAR
  b:OBJECT setlightcolor ARRAY
  b:OBJECT setlightambient ARRAY
  b:OBJECT lightattachobject ARRAY
  u:lightdetachobject OBJECT
  "

/-- Tasks and diary. -/
def tasksDiary : String :=
  "
  b:TASK settaskresult ARRAY
  b:TASK setsimpletaskdestination ARRAY
  b:TASK setsimpletasktarget ARRAY
  b:TASK setsimpletasktype STRING
  b:TASK setsimpletaskalwaysvisible BOOL
  u:cancelsimpletaskdestination TASK
  b:OBJECT setcurrenttask TASK
  u:currenttask OBJECT
  u:simpletasks OBJECT
  b:OBJECT removesimpletask TASK
  u:taskstate TASK
  u:taskdescription TASK
  u:taskdestination TASK
  u:taskcompleted TASK
  u:taskparent TASK
  u:taskchildren TASK
  u:taskname TASK
  b:OBJECT diarysubjectexists STRING
  b:OBJECT alldiaryrecords STRING
  b:OBJECT selectdiarysubject STRING
  b:OBJECT setdiaryrecordtext ARRAY
  u:processdiarylink STRING
  "

/-- Strings and text. -/
def stringsText : String :=
  "
  b:STRING regexmatch STRING
  b:STRING regexfind ARRAY
  b:STRING regexreplace ARRAY
  u:toupperansi STRING
  u:toloweransi STRING
  u:forceunicode SCALAR
  u:composetext ARRAY
  n:linebreak
  u:image STRING
  u:islocalized STRING
  b:SCALAR tofixed SCALAR
  u:tofixed SCALAR
  u:gettextwidth ARRAY
  u:hashvalue ANY
  u:keyname SCALAR
  u:actionkeys STRING
  u:actionkeysnames STRING,ARRAY
  u:actionname STRING
  u:inputaction STRING
  u:gettextraw CONFIG
  "

/-- Math and vectors. -/
def mathVectors : String :=
  "
  u:deg SCALAR
  u:rad SCALAR
  u:linearconversion ARRAY
  b:SCALAR,ARRAY random SCALAR
  b:ARRAY vectorcrossproduct ARRAY
  b:ARRAY vectorcos ARRAY
  b:ARRAY vectordistancesqr ARRAY
  b:ARRAY vectorfromto ARRAY
  u:vectormagnitudesqr ARRAY
  u:vectorlinearconversion ARRAY
  u:matrixtranspose ARRAY
  b:ARRAY matrixmultiply ARRAY
  "

/-- More arrays and comparisons. -/
def moreArraysComparisons : String :=
  "
  b:ARRAY findany ARRAY
  u:flatten ARRAY
  u:selectrandomweighted ARRAY
  b:ARRAY selectrandomweighted ARRAY
  b:CODE foreachreversed ARRAY
  b:ANY isnotequalto ANY
  b:ARRAY isequaltypearray ARRAY
  b:ANY isequaltypeany ARRAY
  b:ANY isequaltypeparams ARRAY
  u:createhashmapobject ARRAY
  b:HASHMAP getordefaultcall ARRAY
  "

/-- Scripting and engine. -/
def scriptingEngine : String :=
  "
  u:compilescript ARRAY
  u:callextension STRING
  b:STRING callextension STRING,ARRAY
  u:execfsm STRING
  b:ANY execfsm STRING
  u:completedfsm SCALAR
  u:scriptname STRING
  u:isfinal STRING,CODE
  u:loadconfig STRING
  u:assert BOOL
  n:halt
  u:debuglog ANY
  u:copytoclipboard STRING
  n:copyfromclipboard
  u:diag_captureframe SCALAR
  u:diag_codeperformance ARRAY
  n:diag_fps
  n:diag_fpsmin
  n:diag_activescripts
  n:diag_activesqfscripts
  n:diag_activemissionfsms
  n:diag_deltatime
  u:onmapsingleclick CODE,STRING
  u:oneachframe CODE
  u:onplayerconnected CODE,STRING
  u:onplayerdisconnected CODE,STRING
  u:removeallmissioneventhandlers STRING
  u:adduseractioneventhandler ARRAY
  u:ingameuiseteventhandler ARRAY
  b:STRING addpublicvariableeventhandler CODE,ARRAY
  u:getmissionpath STRING
  u:getmissionconfig STRING
  u:getmissionconfigvalue STRING,ARRAY
  u:getmissionlayerentities STRING,SCALAR
  u:configproperties ARRAY
  u:configsourcemod CONFIG
  u:activateaddons ARRAY
  n:activatedaddons
  u:startloadingscreen ARRAY
  n:endloadingscreen
  u:progressloadingscreen SCALAR
  n:savegame
  u:enablesaving BOOL,ARRAY
  n:missionprofilenamespace
  n:savemissionprofilenamespace
  "

/-- Multiplayer and session. -/
def multiplayerSession : String :=
  "
  n:didjip
  u:didjipowner OBJECT
  n:isremoteexecuted
  n:isremoteexecutedjip
  n:remoteexecutedowner
  n:servername
  n:profilename
  n:profilenamesteam
  u:getplayerid OBJECT
  n:allusers
  u:getuserinfo STRING
  n:missionstart
  n:missionversion
  n:missiondifficulty
  n:difficulty
  u:difficultyoption STRING
  n:productversion
  n:issteammission
  n:is3den
  n:is3denpreview
  n:isfilepatchingenabled
  n:playerrespawntime
  u:setplayerrespawntime SCALAR
  u:setplayable OBJECT
  u:addswitchableunit OBJECT
  u:removeswitchableunit OBJECT
  u:estimatedtimeleft SCALAR
  n:estimatedendservertime
  u:servercommand STRING
  b:STRING servercommand STRING
  u:servercommandavailable STRING
  u:allmissionobjects STRING
  u:entities STRING,ARRAY
  u:allsimpleobjects ARRAY
  n:allmines
  n:allairports
  n:alldisplays
  n:allcurators
  u:allvariables ANY
  u:getassignedcuratorlogic OBJECT
  u:getassignedcuratorunit OBJECT
  b:OBJECT addcuratoreditableobjects ARRAY
  b:OBJECT removecuratoreditableobjects ARRAY
  u:curatoreditableobjects OBJECT
  b:OBJECT assigncurator OBJECT
  u:unassigncurator OBJECT
  "

/-- Radio and chat. -/
def radioChat : String :=
  "
  b:OBJECT commandchat STRING
  b:OBJECT,ARRAY customchat ARRAY
  u:radiochannelcreate ARRAY
  b:SCALAR radiochanneladd ARRAY
  b:SCALAR radiochannelremove ARRAY
  b:OBJECT,ARRAY sideradio STRING
  b:OBJECT groupradio STRING
  b:OBJECT vehicleradio STRING
  b:OBJECT globalradio STRING
  b:OBJECT,ARRAY directsay STRING
  u:setcurrentchannel SCALAR
  n:currentchannel
  b:SCALAR enablechannel BOOL,ARRAY
  u:hintcadet STRING,TEXT
  "

/-- More markers and locations. -/
def moreMarkersLocations : String :=
  "
  u:markercolor STRING
  u:markertype STRING
  u:markersize STRING
  u:markerdir STRING
  u:markeralpha STRING
  u:markershape STRING
  u:markerbrush STRING
  u:markerpolyline STRING
  u:markerchannel STRING
  u:getmarkercolor STRING
  u:getmarkersize STRING
  u:getmarkertype STRING
  b:STRING setmarkersize ARRAY
  b:STRING setmarkersizelocal ARRAY
  b:STRING setmarkerdir SCALAR
  b:STRING setmarkerdirlocal SCALAR
  b:STRING setmarkershape STRING
  b:STRING setmarkershapelocal STRING
  b:STRING setmarkerbrush STRING
  b:STRING setmarkerbrushlocal STRING
  b:STRING setmarkercolorlocal STRING
  b:STRING setmarkertypelocal STRING
  b:STRING setmarkertextlocal STRING
  b:STRING setmarkeralphalocal SCALAR
  b:STRING setmarkerpolyline ARRAY
  u:locationposition LOCATION
  u:size LOCATION
  b:LOCATION setsize ARRAY
  b:LOCATION settext STRING
  b:LOCATION settype STRING
  u:type LOCATION
  u:classname LOCATION
  b:LOCATION attachobject OBJECT
  b:LOCATION setimportance SCALAR
  u:importance LOCATION
  b:LOCATION setrectangular BOOL
  u:rectangular LOCATION
  b:LOCATION setdirection SCALAR
  u:direction LOCATION,OBJECT
  u:nearestlocationwithdubbing ARRAY
  "

/-- More UI. -/
def moreUi : String :=
  "
  u:ctrldelete CONTROL
  b:CONTROL ctrlsetfade SCALAR
  u:ctrlfade CONTROL
  b:CONTROL ctrlsettextcolor ARRAY
  b:CONTROL ctrlsetbackgroundcolor ARRAY
  b:CONTROL ctrlsetfont STRING
  b:CONTROL ctrlsetstructuredtext STRUCTUREDTEXT,TEXT
  b:CONTROL ctrlsettooltip STRING
  u:ctrlposition CONTROL
  u:ctrlshown CONTROL
  u:ctrlenabled CONTROL,ARRAY
  u:ctrlidc CONTROL
  u:ctrlsetfocus CONTROL
  b:CONTROL ctrlremoveeventhandler ARRAY
  b:CONTROL ctrlremovealleventhandlers STRING
  b:CONTROL ctrlsetscale SCALAR
  b:CONTROL ctrlmapanimadd ARRAY
  u:ctrlmapanimcommit CONTROL
  b:CONTROL ctrlmapscreentoworld ARRAY
  b:CONTROL ctrlmapworldtoscreen ARRAY
  u:ctrlmapscale CONTROL
  u:ctrlchecked CONTROL
  b:CONTROL ctrlsetchecked BOOL
  b:DISPLAY displayremoveeventhandler ARRAY
  b:DISPLAY displayremovealleventhandlers STRING
  b:DISPLAY createdisplay STRING
  u:displayparent DISPLAY
  u:allcontrols DISPLAY
  n:dialog
  b:CONTROL lbtext SCALAR
  b:CONTROL lbdata SCALAR
  b:CONTROL lbsetdata ARRAY
  b:CONTROL lbvalue SCALAR
  b:CONTROL lbsetvalue ARRAY
  b:CONTROL lbdelete SCALAR
  u:lbsize CONTROL,SCALAR
  b:CONTROL lbsetpicture ARRAY
  b:CONTROL lbsetcolor ARRAY
  b:CONTROL lbsettooltip ARRAY
  u:lbsort CONTROL,ARRAY
  b:CONTROL lnbaddrow ARRAY
  b:CONTROL lnbsettext ARRAY
  b:CONTROL lnbtext ARRAY
  u:lnbclear CONTROL
  b:CONTROL tvadd ARRAY
  u:tvclear CONTROL
  u:openmap BOOL,ARRAY
  n:visiblemap
  n:visiblegps
  u:forcemap BOOL
  u:showhud BOOL,ARRAY
  n:shownhud
  u:disableuserinput BOOL
  n:userinputdisabled
  n:getmouseposition
  n:getresolution
  n:safezonex
  n:safezoney
  n:safezonew
  n:safezoneh
  n:safezonexabs
  n:safezonewabs
  n:pixelw
  n:pixelh
  n:pixelgrid
  "

/-- All groups, one after the other. -/
def text : String :=
  "\n".intercalate
    [operators, controlStructures, scriptsFiles, values,
      typeInspectionConversion, math, arraysHashMaps, namespacesVariables,
      multiplayer, timeMission, objectsUnits, markersLocations,
      communication, config, ui, unitsAi,
      groupsWaypoints, vehicles, damageHitPoints, inventory,
      positionsGeometry, objectState, triggers, environment,
      cameraScreenEffects, soundParticles, tasksDiary, stringsText,
      mathVectors, moreArraysComparisons, scriptingEngine, multiplayerSession,
      radioChat, moreMarkersLocations, moreUi]

end Builtin

/-- The catalogue that is used when none is given. -/
def Catalogue.builtin : Catalogue :=
  ofText Builtin.text

end SqfCheck
