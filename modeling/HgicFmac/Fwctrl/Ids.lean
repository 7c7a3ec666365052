/-!
# The commands of the firmware

`enum hgic_cmd`, as far as the settings of `iwpriv.c` use it.
-/

namespace HgicFmac.Fwctrl.HgicCmd

def setSsid : Nat := 4
def setBssid : Nat := 5
def setCountry : Nat := 6
def setChannel : Nat := 7
def setRtsThreshold : Nat := 9
def setFrgThreshold : Nat := 10
def setKeyMgmt : Nat := 11
def setWpaPsk : Nat := 12
def scan : Nat := 14
def getScanList : Nat := 15
def setBssidFilter : Nat := 16
def getBssid : Nat := 18
def setTxPower : Nat := 22
def getTxPower : Nat := 23
def setTxBw : Nat := 28
def setTxMcs : Nat := 29
def setFreqRange : Nat := 30
def acsEnable : Nat := 31
def setPrimaryChan : Nat := 32
def setBgRssi : Nat := 33
def setBssBw : Nat := 34
def setChanList : Nat := 39
def getConnState : Nat := 40
def setWorkMode : Nat := 41
def setPairedStations : Nat := 42
def pairing : Nat := 44
def getTemperature : Nat := 45
def enterSleep : Nat := 46
def getSsid : Nat := 48
def getWpaPsk : Nat := 49
def getSignal : Nat := 50
def getTxBitrate : Nat := 51
def setBeaconInt : Nat := 52
def saveCfg : Nat := 54
def getStaList : Nat := 53
def joinGroup : Nat := 55
def setEtherType : Nat := 56
def getStaCount : Nat := 57
def setHeartbeatInt : Nat := 58
def setMcastKey : Nat := 59
def setAggCnt : Nat := 60
def getAggCnt : Nat := 61
def getBssBw : Nat := 62
def getFreqRange : Nat := 63
def getChanList : Nat := 64
def radioOnoff : Nat := 65
def setPsHeartbeat : Nat := 66
def setWakeupSta : Nat := 67
def setPsHeartbeatResp : Nat := 68
def setPsWakeupData : Nat := 69
def setPsConnect : Nat := 70
def setBssMaxIdle : Nat := 71
def setWkioMode : Nat := 72
def setDtimPeriod : Nat := 73
def setPsMode : Nat := 74
def loadDef : Nat := 75
def disassocSta : Nat := 76
def setAplostTime : Nat := 77
def getWakeupReason : Nat := 78
def unpair : Nat := 79
def setAutoChanSwitch : Nat := 80
def setReassocWkhost : Nat := 81
def setWakeupIo : Nat := 82
def dbginfoOutput : Nat := 83
def setSysdbg : Nat := 84
def setAutoSleepTime : Nat := 85
def getKeyMgmt : Nat := 86
def setPairAutostop : Nat := 87
def setSuperPwr : Nat := 88
def setRepeaterSsid : Nat := 89
def setRepeaterPsk : Nat := 90
def cfgAutoSave : Nat := 91
def sendCustMgmt : Nat := 92
def getBatteryLevel : Nat := 93
def setDcdc13 : Nat := 94
def setAcktmo : Nat := 95
def getModuletype : Nat := 96
def paPwrctrlDis : Nat := 97
def setDhcpc : Nat := 98
def getDhcpcResult : Nat := 99
def setWkupdataMask : Nat := 100
def getWkdataBuff : Nat := 101
def getDisassocReason : Nat := 102
def setWkupdataSaveen : Nat := 103
def setCustDriverData : Nat := 104
def setMcastTxparam : Nat := 105
def setStaFreqinfo : Nat := 106
def setResetSta : Nat := 107
def setAntAuto : Nat := 110
def setAntSel : Nat := 111
def getAntSel : Nat := 112
def setWkupHostReason : Nat := 113
def setMacFilterEn : Nat := 114
def setAtcmd : Nat := 115
def setRoaming : Nat := 116
def setApHide : Nat := 117
def setMaxTcnt : Nat := 119
def setAssertHoldup : Nat := 120
def setApPsmodeEn : Nat := 121
def setDupfilterEn : Nat := 122
def setDis1v1M2u : Nat := 123
def setDisPsconnect : Nat := 124
def setRtc : Nat := 125
def getRtc : Nat := 126
def setKickAssoc : Nat := 127
def startAssoc : Nat := 128
def sendBlencData : Nat := 130
def setBlencEn : Nat := 131
def reset : Nat := 132
def setHwscan : Nat := 133
def getTxqParam : Nat := 134
def setUserEdca : Nat := 136
def setFixTxrate : Nat := 137
def setNavMax : Nat := 138
def setCcaParam : Nat := 140
def setTxModgain : Nat := 141
def getNav : Nat := 142
def getMode : Nat := 145
def getBgrssi : Nat := 146
def sendBlencAdvdata : Nat := 147
def sendBlencScanresp : Nat := 148
def sendBlencDevaddr : Nat := 149
def sendBlencAdvinterval : Nat := 150
def sendBlencStartadv : Nat := 151
def setRtsDuration : Nat := 152
def standbyCfg : Nat := 153
def setConnectPaironly : Nat := 154
def setDiffcustConn : Nat := 155
def getCenterFreq : Nat := 156
def setWaitPsmode : Nat := 157
def setApChanSwitch : Nat := 158
def setCcaForCe : Nat := 159
def setDisablePrint : Nat := 160
def setApepPadding : Nat := 161
def getAcsResult : Nat := 162
def getWifiStatusCode : Nat := 163
def getWifiReasonCode : Nat := 164
def setWatchdog : Nat := 165
def setRetryFallbackCnt : Nat := 166
def setFallbackMcs : Nat := 167
def getXoscValue : Nat := 168
def setXoscValue : Nat := 169
def getFreqOffset : Nat := 170
def setCaliPeriod : Nat := 171
def setBlencAdvfilter : Nat := 172
def setMaxTxDelay : Nat := 173
def getStaInfo : Nat := 174
def sendMgmtframe : Nat := 175
def setPsHbdataMask : Nat := 183
def setSleepRoaming : Nat := 188
def setRoamingBssid : Nat := 193
def getLinkQuality : Nat := 194
def setDisableBss : Nat := 197
def setRmeshDevmax : Nat := 204
def setRmeshAid : Nat := 205
def setRmeshDevice : Nat := 206
def setRmeshNotfw : Nat := 207
def setRmeshRssimin : Nat := 208
def getRmeshDevice : Nat := 209
def getRmeshMeshid : Nat := 210

end HgicFmac.Fwctrl.HgicCmd
